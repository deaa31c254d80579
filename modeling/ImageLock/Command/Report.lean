/-
What the program prints.
-/
import ImageLock.Duration
import ImageLock.Update

namespace ImageLock.Command

def done (text : String) : String := "✓ " ++ text

def changed (text : String) : String := "~ " ++ text

def kept (text : String) : String := "• " ++ text

def field (label value : String) : String := "  " ++ label ++ ": " ++ value

def inCyan (text : String) : String := "\x1b[36m" ++ text ++ "\x1b[39m"

/-- The first twelve characters of a hash. -/
def shortHash (hash : String) : String := String.ofList (hash.toList.take 12)

def updateLines (report : UpdateReport) (elapsed : Duration) : List String :=
  report.updated.map (fun name => changed ("Updated: " ++ inCyan name)) ++
    (if report.unchanged.isEmpty then []
      else [kept ("Unchanged: " ++ Text.join ", " report.unchanged)]) ++
    [done (if report.changed then "Lock file updated: " ++ report.path
        else "All locks are up to date."),
      field "Definition" (shortHash report.hash), field "Duration" elapsed.format]

def planLines (plan : BuildPlan) : List String :=
  [done (plan.kind ++ " stage " ++ plan.stage), field "Base image" plan.image,
      field "Context" plan.context.display,
      field "Dev" (if plan.isDev then "true" else "false")] ++
    plan.arguments.entries.map fun (name, value) => field name value

/-- A summary of a plan, and of the one that it copies from. -/
def summaryLines (plan : BuildPlan) : List String :=
  planLines plan ++
    match plan.source with
    | some source => ["", "Copies from:"] ++ planLines source
    | none => []

def unlines (lines : List String) : String := String.join (lines.map (· ++ "\n"))

/-! Failures. -/

/-- Lines behind the first are indented as far as the first one is. -/
def indentLines (lead blank text : String) : String :=
  lead ++ Text.join ("\n" ++ blank)
    ((Text.splitWhere (· == '\n') text.toList).map String.ofList)

def numberedCause (n : Nat) (cause : String) : String :=
  let number := Number.natText n
  let lead := String.ofList (List.replicate (5 - number.length) ' ') ++ number ++ ": "
  indentLines lead "       " cause ++ "\n"

def causeText (causes : List String) : String :=
  match causes with
  | [] => ""
  | [cause] => "\nCaused by:\n" ++ indentLines "    " "    " cause ++ "\n"
  | causes =>
      "\nCaused by:\n" ++
        String.join (causes.zipIdx.map fun (cause, n) => numberedCause n cause)

/-- A failure with what it comes from. Several causes are numbered. -/
def failureText (message : String) (causes : List String) : String :=
  "Error: " ++ message ++ "\n" ++ causeText causes

end ImageLock.Command
