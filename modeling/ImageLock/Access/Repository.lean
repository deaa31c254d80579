/-
Repositories of build contexts, seen through commands in an image.
-/
import ImageLock.Access.Act
import ImageLock.Path
import ImageLock.Text.ShellWord

namespace ImageLock.GitContext

/-- The image that the commands run in. -/
def image : String := "docker.io/akerouanton/zbuild-git:v0.1"

def address (context : Context) : String :=
  if Text.startsWith "git://" context.source then context.source else "git://" ++ context.source

def cloneCommand (context : Context) : String :=
  "git clone --quiet " ++ Text.shellWord (address context) ++ " /tmp/repo 1>/dev/null 2>&1"

def reference (context : Context) : String :=
  if context.reference.isEmpty then "HEAD" else context.reference

def revisionCommands (context : Context) : List String :=
  [cloneCommand context, "cd /tmp/repo",
    "git rev-parse -q --verify " ++ Text.shellWord (reference context)]

def withoutSlashes (path : String) : String := Text.dropStartWhile (· == '/') path

def showCommands (context : Context) (path : String) : List String :=
  let object := reference context ++ ":" ++ Path.join context.path (withoutSlashes path)
  [cloneCommand context, "cd /tmp/repo", "git show " ++ Text.shellWord object]

/-- The context with its reference pinned to a revision. -/
def lock (backend : Backend) (context : Context) : Act AccessError Context := do
  if !context.isGit then return context
  let out ← Act.ofReply (backend.run image (revisionCommands context))
  return { context with reference := Text.trim out }

end ImageLock.GitContext
