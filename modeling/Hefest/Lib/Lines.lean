import Mathlib.Data.List.Basic

set_option autoImplicit false

namespace Lines

/-- Line feed, vertical tab, form feed, carriage return, the file, group and record separators, the
    next line, and the line and paragraph separators. -/
def isBoundary (c : Char) : Bool :=
  c.toNat ∈ [0x0A, 0x0B, 0x0C, 0x0D, 0x1C, 0x1D, 0x1E, 0x85, 0x2028, 0x2029]

/-- `line` is what the current line has so far, in reverse. -/
def splitFrom (line : List Char) (afterReturn : Bool) : List Char → List (List Char)
  | [] => if line = [] then [] else [line.reverse]
  | c :: cs =>
    if afterReturn && c = '\n' then splitFrom line false cs
    else if isBoundary c then line.reverse :: splitFrom [] (c = '\r') cs
    else splitFrom (c :: line) false cs

/-- `text.splitlines()`; a carriage return and the line feed behind it end one line. -/
def splitlines (text : String) : List String :=
  (splitFrom [] false text.toList).map String.ofList

section Split
variable {cs rest line : List Char} {afterReturn : Bool} {text : String}

example : splitlines "a\r\nb\u2028\n" = ["a", "b", ""] := by decide

end Split
end Lines
