import Avro.Text.Basic

/-!
# Paths

Slash-separated paths. A clean path has no empty or `.` parts, and `..` only at its start; the
empty path is written `.`.
-/

set_option autoImplicit false

namespace Avro.Path

def isAbsolute (path : Text) : Bool := Text.startsWith path "/"

def push (rooted : Bool) (parts : List Text) (part : Text) : List Text :=
  if part.isEmpty || part = "." then parts
  else if part = ".." then
    match parts with
    | [] => if rooted then [] else [part]
    | last :: before => if last = ".." then part :: parts else before
  else part :: parts

def parts (path : Text) : List Text :=
  ((Text.splitOn '/' path).foldl (push (isAbsolute path)) []).reverse

def clean (path : Text) : Text :=
  let joined := Text.join "/" (parts path)
  if isAbsolute path then "/" ++ joined
  else if joined.isEmpty then "."
  else joined

def join (components : List Text) : Text :=
  match components.dropWhile List.isEmpty with
  | [] => []
  | components => clean (Text.join "/" components)

def parent (path : Text) : Text :=
  match Text.splitLast? '/' path with
  | some (before, _) => clean (before ++ "/")
  | none => "."

def base (path : Text) : Text :=
  if path.isEmpty then "."
  else
    let trimmed := (path.reverse.dropWhile (·.isChar '/')).reverse
    if trimmed.isEmpty then "/"
    else
      match Text.splitLast? '/' trimmed with
      | some (_, last) => last
      | none => trimmed

def extension (path : Text) : Text :=
  let last := ((Text.splitLast? '/' path).map Prod.snd).getD path
  match Text.splitLast? '.' last with
  | some (_, suffix) => "." ++ suffix
  | none => []

end Avro.Path
