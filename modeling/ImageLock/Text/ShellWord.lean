/-
Writing a text as one word of a shell command.
-/
import ImageLock.Text.Cut

namespace ImageLock.Text

/-- Characters that the shell takes for something else than themselves. -/
def isShellSpecial (c : Char) : Bool :=
  "|&;<>()$\x60\\\" \t*?[#~=%\n'".toList.contains c

/-- A quote inside single quotes ends them, stands escaped and opens them
again. -/
def shellQuote (c : Char) : List Char :=
  if c == '\'' then ['\'', '\\', '\'', '\''] else [c]

/-- A text without special characters is a word as it is. -/
def shellWord (text : String) : String :=
  let chars := text.toList
  if !chars.isEmpty && !chars.any isShellSpecial then text
  else String.ofList ('\'' :: chars.flatMap shellQuote ++ ['\''])

end ImageLock.Text
