import ContributorGateway.Core.Citations
import ContributorGateway.Foundation.Words

/-!
# Markdown of the indexes

What the task index and the symbol index read of Markdown lines: headings, list items, rows of
tables and plain texts.
-/

namespace ContributorGateway.Markdown

/-- The backtick. -/
def backtick : Char := Char.ofNat 0x60

/-- `re.sub(r"\x60([^\x60]*)\x60", r"\1", text)`, inside or outside of a pair. -/
def unquoteFrom : Bool → List Char → List Char
  | _, [] => []
  | inside, c :: rest =>
      if c = backtick then
        if inside then unquoteFrom false rest
        else if rest.contains backtick then unquoteFrom true rest
        else c :: unquoteFrom false rest
      else c :: unquoteFrom inside rest

/-- `_plain_markdown`. -/
def plainMarkdown (value : List Char) : List Char :=
  Words.collapse isSpace ' ' (replaceAll ['_', '_'] [] (replaceAll ['*', '*'] []
    (unquoteFrom false (stripText value))))

/-- `_table_cells`. -/
def tableCells (line : List Char) : Option (List (List Char)) :=
  let stripped := stripText line
  if stripped.head? = some '|' ∧ stripped.getLast? = some '|' then
    some (((stripped.drop 1).dropLast.splitOn '|').map stripText)
  else none

/-- A full match of `:?-{3,}:?`. -/
def isSeparatorCell (cell : List Char) : Bool :=
  let opened := if cell.head? = some ':' then cell.drop 1 else cell
  let dashes := if opened.getLast? = some ':' then opened.dropLast else opened
  3 ≤ dashes.length && dashes.all (· = '-')

/-- `_is_separator_row`. -/
def isSeparatorRow (cells : List (List Char)) : Bool := !cells.isEmpty && cells.all isSeparatorCell

/-- The last group of a full match of `\s+(.+)`. The blanks give one back if nothing else is
left for the group. -/
def afterBlanks (text : List Char) : Option (List Char) :=
  let blanks := text.takeWhile isSpace
  let body := text.dropWhile isSpace
  if blanks = [] then none
  else if body ≠ [] then some body
  else if blanks.length = 1 then none
  else some (blanks.drop (blanks.length - 1))

/-- The group of a full match of `##\s+(.+?)\s*`. -/
def headingTitle (line : List Char) : Option (List Char) :=
  match line with
  | '#' :: '#' :: rest =>
      (afterBlanks rest).map fun body =>
        let trimmed := body.rdropWhile isSpace
        if trimmed = [] then body else trimmed
  | _ => none

/-- The mark of a list item. -/
def isBulletMark (c : Char) : Bool := c = '-' || c = '*' || c = '+'

/-- The group of a full match of `[-*+]\s+(.+)`. -/
def bulletText (line : List Char) : Option (List Char) :=
  match line with
  | mark :: rest => if isBulletMark mark then afterBlanks rest else none
  | [] => none

/-- The groups of a full match of `[-*+]\s+\[([ xX])\]\s+(.+)`. -/
def checkboxText (line : List Char) : Option (Char × List Char) :=
  (bulletText line).bind fun body =>
    match body with
    | '[' :: checked :: ']' :: rest =>
        if checked = ' ' || checked = 'x' || checked = 'X' then
          (afterBlanks rest).map fun title => (checked, title)
        else none
    | _ => none

/-- The group of a full match of `\d+[.)]\s+(.+)`. -/
def numberedText (isDecimal : Char → Bool) (line : List Char) : Option (List Char) :=
  if line.takeWhile isDecimal = [] then none
  else
    match line.dropWhile isDecimal with
    | mark :: rest => if mark = '.' || mark = ')' then afterBlanks rest else none
    | [] => none

end ContributorGateway.Markdown
