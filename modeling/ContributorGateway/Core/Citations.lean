import ContributorGateway.Foundation.LineBreaks
import ContributorGateway.Foundation.PythonText
import Mathlib.Data.List.Infix

/-!
# Titles and citations

What both services show of a file besides its text: a heading as the title, and the quoted
path of a link.
-/

namespace ContributorGateway

/-- `text.startswith(start)`. -/
def startsWith (start text : List Char) : Bool := start.isPrefixOf text

/-- `part in text`. -/
def occursIn (part text : List Char) : Bool := text.tails.any fun rest => part.isPrefixOf rest

/-- A part of a text stands between a front and a back of it. -/
theorem occursIn_iff {part text : List Char} : occursIn part text = true ↔ part <:+: text := by
  rw [occursIn, List.any_eq_true, List.infix_iff_prefix_suffix]
  simp only [List.mem_tails, List.isPrefixOf_iff_prefix]
  exact ⟨fun ⟨rest, hrest, hpart⟩ => ⟨rest, hpart, hrest⟩,
    fun ⟨rest, hpart, hrest⟩ => ⟨rest, hrest, hpart⟩⟩

/-- `text.strip()`. -/
def stripText (text : List Char) : List Char := (text.dropWhile isSpace).rdropWhile isSpace

/-- The characters between the mark of a heading and its text. -/
def isHeadingBlank (c : Char) : Bool := c = ' ' || c = '\t'

/-- The group of a full match of `^#(?:[ \t]+)(.+?)\s*$` on a line. The blanks give one back
if nothing else is left for the group, which ends as early as the whitespace after it allows. -/
def headingText (line : List Char) : Option (List Char) :=
  match line with
  | '#' :: rest =>
      let blanks := rest.takeWhile isHeadingBlank
      let body := rest.dropWhile isHeadingBlank
      if blanks = [] then none
      else if body = [] then
        if blanks.length = 1 then none else some (blanks.drop (blanks.length - 1))
      else
        let trimmed := body.rdropWhile isSpace
        some (if trimmed = [] then body.take 1 else trimmed)
  | _ => none

/-- `urllib.parse.quote(text, safe='/')`. -/
def quotePath (text : List Char) : List Char :=
  text.flatMap fun c => if c = '/' then [c] else (quote (String.ofList [c])).toList

end ContributorGateway
