import Sentential.Text.Layout
import Sentential.Text.LetterCase

/-! The instructions to the user, with a section on the current mode at their end. -/

namespace Sentential.Desk.Guide

/-- The lines of the instructions. -/
def instructions : List String :=
  ["HOW TO USE GPLC",
   "",
   "INPUT FORMULAS:",
   "• Use capital letters A-Z for atomic propositions",
   "• Click buttons below to insert symbols into input fields",
   "• Type directly into input fields",
   "",
   "LOGICAL CONNECTIVES:",
   "Standard Notation    Alternative",
   "     &                   AND",
   "     |                   OR  ",
   "     ~                   NOT, !",
   "     ^                   XOR",
   "     →                   ->, IMP",
   "     ↔                   <->, BICON",
   "     ⊼                   NAND",
   "     ⊽                   NOR",
   "",
   "PARENTHESES:",
   "• Use ( and ) to group expressions",
   "• Click parentheses buttons or type directly",
   "",
   "INPUT FORMAT:",
   "✓ Valid: A & B",
   "✓ Valid: (A | B) → C",
   "✓ Valid: ~A & (B | C)",
   "✗ Invalid: A &  (missing operand)",
   "✗ Invalid: & B  (missing left operand)",
   "",
   "MODES:",
   "• Automatic: System finds proofs automatically",
   "• Manual: Select steps and apply rules yourself",
   "",
   "BUTTONS:",
   "• Execute Proof: Find/verify logical proof",
   "• Generate Truth Table: Show all truth values",
   "• Export: Save truth table to file",
   "• Clear All: Reset everything",
   "",
   "ERROR FEEDBACK:",
   "• Red highlighting shows invalid characters",
   "• Messages appear in notification area below",
   "• Formula type displayed: Tautology/Contradiction/Contingent",
   "",
   "NOTE: Click buttons to insert symbols. Advanced drag-and-drop",
   "will be added in a future version."]

/-- The instructions before any mode was told. -/
def start : String :=
  Text.join "\n" instructions

/-- What the section on the current mode starts with. -/
def modeHeading : String := "CURRENT MODE:"

/-- What the section says about a mode. -/
def advice (mode : String) : List String :=
  if mode = "automatic" then
    ["• System will automatically find proofs", "• Click 'Execute Proof' to start",
     "• Results appear in Proof Steps panel"]
  else
    ["• Click proof steps to select them", "• Choose inference rules manually",
     "• Build proofs step by step"]

/-- The section on a mode. -/
def modeSection (mode : String) : String :=
  "\n\n" ++ Text.join "\n" ((modeHeading ++ " " ++ Text.upper mode) :: advice mode)

/-- The lines before the section on the mode. -/
def beforeMode (text : String) : List String :=
  ((text.toList.splitOn '\n').takeWhile fun line => !modeHeading.toList.isPrefixOf line).map
    String.ofList

/-- The instructions with the section on the mode replaced. -/
def update (mode text : String) : String :=
  Text.join "\n" (beforeMode text) ++ modeSection mode

end Sentential.Desk.Guide
