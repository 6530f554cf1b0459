import BlockGraph.Checking.Platform
import BlockGraph.Decimal.Shortest
import BlockGraph.Node.Constant

/-!
# The built-in platforms

Three robots. One checks nothing beyond what follows from its board; the others know limits of
their motors, displays and speakers.
-/

namespace BlockGraph

open Collector

namespace Boards

/-! ## Ev3 -/

def ev3 : Platform where
  board := {
    name := "ev3"
    description := "LEGO Mindstorms EV3"
    motorPorts := ["A", "B", "C", "D"]
    sensorPorts := ["1", "2", "3", "4"]
    sensorKinds := ["touch", "ultrasonic", "color", "gyro", "infrared"] }

/-! ## Calliope -/

def ledsOn : ExtensionSpec where
  blockType := "mbedActions_leds_on"
  category := .action
  fields := [.literal "COLOR" "color"]

def calliopeBoard : Board where
  name := "calliope"
  description := "Calliope mini"
  motorPorts := ["A", "B"]
  sensorPorts := ["1", "2", "3"]
  sensorKinds := ["key", "light", "temperature", "sound"]
  extensionKinds := [ledsOn]

/-- Longer texts take long to scroll over the matrix. -/
def matrixTextLimit : Nat := 20

def isHexDigit (c : Char) : Bool :=
  c.isDigit || ('a' ≤ c && c ≤ 'f') || ('A' ≤ c && c ≤ 'F')

/-- Whether a text is a colour: a hash and six hexadecimal digits. -/
def isColour (text : String) : Bool :=
  match text.toList with
  | '#' :: digits => digits.length == 6 && digits.all isHexDigit
  | _ => false

def checkPower (power : Node) : Collect Unit :=
  match power.number? with
  | some x =>
    if -100 ≤ x && x ≤ 100 then return
    else
      error power .valueOutOfRange
        ("motor power " ++ Decimal.shortest x ++ " is outside -100..100")
  | none => return

def checkMatrixText (n text : Node) : Collect Unit :=
  match text.phrase with
  | .stringConst text =>
    if matrixTextLimit < text.length then
      warning n .textTooLong
        (toString text.length ++ " characters scroll slowly on the LED matrix")
    else return
  | _ => return

def checkLight (n : Node) (spec : ExtensionSpec) (slots : List (SlotValue Node)) : Collect Unit :=
  if spec = ledsOn then
    let colour := (Phrase.extensionLiteral? spec slots "color").getD ""
    if isColour colour then discard (requireCapability n "rgb_led" colour)
    else error n .valueOutOfRange ("'" ++ colour ++ "' is not a #rrggbb colour")
  else return

def calliope : Platform where
  board := calliopeBoard
  checkMotor n port power := do
    checkPower power
    calliopeBoard.checkMotor n port
  checkShowText n text := do
    checkMatrixText n text
    discard (requireCapability n Feature.display "matrix")
  checkExtension := checkLight

/-! ## Nxt -/

def checkFrequency (n frequency : Node) : Collect Unit :=
  let play := discard (requireCapability n Feature.sound "tone")
  match frequency.number? with
  | some x =>
    if 220 ≤ x && x ≤ 14000 then play
    else
      error frequency .valueOutOfRange
        ("the NXT speaker plays 220..14000 Hz, not " ++ Decimal.shortest x)
  | none => play

def nxt : Platform where
  board := {
    name := "nxt"
    description := "LEGO Mindstorms NXT"
    motorPorts := ["A", "B", "C"]
    sensorPorts := ["1", "2", "3", "4"]
    sensorKinds := ["touch", "ultrasonic", "light", "sound"] }
  checkTone n frequency _ := checkFrequency n frequency

end Boards

def PlatformRegistry.builtin : PlatformRegistry :=
  ⟨.ofList ([Boards.ev3, Boards.calliope, Boards.nxt].map fun p => (p.name, p))⟩

end BlockGraph
