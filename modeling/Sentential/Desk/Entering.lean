import Sentential.Desk
import Sentential.Inspection

/-! Typing and entering sentences. A sentence is checked before it is entered, and only one that is
neither always true nor always false gets through: the warning for the others cannot be shown. The
messages go to the status line directly. -/

namespace Sentential.Desk

namespace Slot

/-- What the user is told when nothing was typed. -/
def request : Slot → String
  | premise => "Please enter a premise"
  | conclusion => "Please enter a conclusion"

/-- What a refusal of the sentence is shown as. -/
def topic : Slot → String
  | premise => "premise"
  | conclusion => "conclusion"

/-- What the user is told when the sentence is entered. -/
def success : Slot → String
  | premise => Proof.premiseAdded
  | conclusion => Proof.conclusionSet

/-- Puts a sentence into a proof. -/
def submit : Slot → Sentence → Proof → Except Refusal Proof
  | premise, s, p => p.addPremise (.sentence s)
  | conclusion, s, p => p.setConclusion (.sentence s)

end Slot

/-- Shows what kind of error there is, on the status line only. -/
def reject (kind text : String) (d : Desk) : Desk :=
  d.withStatus (·.showError (some text) kind)

/-- Shows a message on the status line only. -/
def say (text : String) (d : Desk) : Desk :=
  d.withStatus (·.showInfo text)

/-- Keeps a sentence among those entered. -/
def remember (slot : Slot) (s : Sentence) (d : Desk) : Desk :=
  match slot with
  | .premise => { d with enteredPremises := d.enteredPremises ++ [s] }
  | .conclusion => { d with enteredConclusions := d.enteredConclusions ++ [s] }

/-- Submits a sentence to the proof and lists its text. -/
def enter (slot : Slot) (text : String) (s : Sentence) (d : Desk) : Desk :=
  match slot.submit s d.session.proof with
  | .error cause => d.reject slot.topic cause.message
  | .ok proof =>
    (((d.withProof proof).withListing slot (·.add text)).remember slot s).say slot.success

/-- Enters the sentence that a text writes, unless there is something to say against the text. -/
def submit (slot : Slot) (text : List Char) (d : Desk) : Desk :=
  if text.isEmpty ∨ text = placeholder.toList then d.reject "input" slot.request
  else match Inspection.strayCharacters text with
    | first :: rest =>
      let characters := Text.join ", " ((first :: rest).map fun entry => entry.1.toString)
      d.reject "syntax" s!"Invalid characters: {characters}"
    | [] =>
      match Inspection.wellFormed text with
      | .error cause => d.reject "syntax" cause.message
      | .ok () =>
        match Sentence.read text with
        | .error cause => d.reject "formula" cause.message
        | .ok s =>
          match s.classify with
          | .tautology | .contradiction => d.reject "formula" Fault.topicalWarning.message
          | .contingent => (d.say "Formula is CONTINGENT").enter slot (String.ofList text) s

/-- Enters what is typed in a place. -/
def add (slot : Slot) (d : Desk) : Desk :=
  d.submit slot (Text.trim (d.listing slot).field.input.toList)

/-- Enters what is typed in a place, by its button or key, if they do anything. -/
def addByKey (slot : Slot) (d : Desk) : Desk :=
  if (d.listing slot).isConnected then d.add slot else d

/-- Replaces what is typed in a place. -/
def type (slot : Slot) (text : String) (d : Desk) : Desk :=
  d.withField slot fun f => { f with text }

/-- Turns from one place to another, or to none. Nothing happens to the place where the user already
is. -/
def turnTo (target : Option Slot) (d : Desk) : Desk :=
  if target = d.focus then d
  else
    let d := match d.focus with
      | none => d
      | some old => d.withField old Field.left
    let d := { d with focus := target }
    match target with
    | none => d
    | some new => d.withField new Field.entered

/-- Types text where the user is typing. -/
def insert (text : String) (d : Desk) : Desk :=
  match d.focus with
  | none => d
  | some slot => d.withField slot fun f => f.withoutPlaceholder.append text

/-- Types a connective or a parenthesis; a connective is set off by spaces. -/
def insertSign (sign : String) (d : Desk) : Desk :=
  if sign = "(" ∨ sign = ")" then d.insert sign else d.insert s!" {sign} "

/-- Types text at the end of a place, wherever the user is typing, and tells whether that is
there. -/
def insertAt (slot : Slot) (text : String) (d : Desk) : Desk × Bool :=
  (d.withField slot (·.append text), d.focus = some slot)

end Sentential.Desk
