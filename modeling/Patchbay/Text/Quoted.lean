/-!
# Quoted text

A quoted text stands between double quotes, with a backslash in front of the characters that need
one. Which characters those are, and what stands for them, is a parameter.
-/

namespace Patchbay.Text

/-- Write a backslash and the code of every character that has a code; the others stand as they
are. -/
def escape (code : Char → Option Char) : List Char → List Char
  | [] => []
  | c :: rest =>
    match code c with
    | some letter => '\\' :: letter :: escape code rest
    | none => c :: escape code rest

/-- Put a text between double quotes. -/
def quote (code : Char → Option Char) (text : List Char) : List Char :=
  '"' :: escape code text ++ ['"']

/-- Only the quote and the backslash need a backslash. -/
def plainCode (c : Char) : Option Char :=
  if c = '"' || c = '\\' then some c else none

/-- Newlines and tabs are written as letters too, so that the text stays on one line. -/
def lineCode (c : Char) : Option Char :=
  if c = '\n' then some 'n' else if c = '\t' then some 't' else plainCode c

end Patchbay.Text
