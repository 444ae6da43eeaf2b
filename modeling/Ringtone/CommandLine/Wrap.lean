/-!
# Wrapping text

A text is cut into chunks, which are words, parts of hyphenated words, and the blanks between them.
Lines are filled with as many chunks as fit. Blanks do not begin a line or end it, and a word that
is longer than a line is cut.
-/

namespace Ringtone.CommandLine

/-- A run of characters that stay together. -/
abbrev Chunk := List Char

/-- Whether a chunk holds nothing but blanks. -/
def isBlankChunk (chunk : Chunk) : Bool := chunk.all (· = ' ')

/-- A text in chunks. A word may be cut after a hyphen with two letters on either side of it. -/
def chunks : (before : Chunk) → List Char → List Chunk
  | before, [] => if before = [] then [] else [before.reverse]
  | before, c :: rest =>
    let cutBefore :=
      match before with
      | [] => false
      | last :: earlier =>
        (last = ' ') != (c = ' ') ||
          (last = '-' && (earlier.takeWhile Char.isAlpha).length ≥ 2 && c.isAlpha
            && (rest.head?.map Char.isAlpha).getD false)
    if cutBefore then before.reverse :: chunks [c] rest
    else chunks (c :: before) rest

/-- The pieces of at most `width` characters of a word. -/
def pieces (width : Nat) (word : Chunk) : List Chunk :=
  if _ : width = 0 ∨ word.length ≤ width then [word]
  else word.take width :: pieces width (word.drop width)
termination_by word.length
decreasing_by simp; omega

/-- The lines that are full and the chunks of the next one, the last ones first. -/
structure Lines where
  /-- The full lines. -/
  done : List Chunk
  /-- The chunks of the next line. -/
  line : List Chunk

namespace Lines

/-- The number of characters of the next line. -/
def used (lines : Lines) : Nat := lines.line.flatten.length

/-- The lines after the next one is full. -/
def finish (lines : Lines) : Lines :=
  let line := match lines.line with
    | last :: before => if isBlankChunk last then before else last :: before
    | [] => []
  if line = [] then { lines with line := [] }
  else { done := line.reverse.flatten :: lines.done, line := [] }

/-- The lines after a chunk that begins a line. -/
def begin (width : Nat) (lines : Lines) (chunk : Chunk) : Lines :=
  if isBlankChunk chunk && !lines.done.isEmpty then lines
  else
    (pieces width chunk).foldl
      (fun lines piece =>
        { (if lines.line = [] then lines else lines.finish) with line := [piece] })
      lines

/-- The lines after one more chunk. -/
def add (width : Nat) (lines : Lines) (chunk : Chunk) : Lines :=
  let room := width - lines.used
  if lines.line = [] then lines.begin width chunk
  else if chunk.length ≤ room then { lines with line := chunk :: lines.line }
  else if width < chunk.length then
    ({ lines with line := chunk.take room :: lines.line }.finish).begin width (chunk.drop room)
  else lines.finish.begin width chunk

end Lines

/-- The lines of a text. -/
def wrap (width : Nat) (text : String) : List String :=
  let lines := (chunks [] text.toList).foldl (Lines.add width) { done := [], line := [] }
  lines.finish.done.reverse.map String.ofList

end Ringtone.CommandLine
