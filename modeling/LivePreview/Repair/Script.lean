import LivePreview.Repair.Service
import LivePreview.Text.Search

/-!
A repair service that answers by a script and remembers every request. Replies for one file come
before those for all files: the former are used up until one is left, which stays; the latter are used
in turn, again and again. Without a reply the content is left as it is.
-/

namespace LivePreview.Repair

/-- A reply of a script. -/
inductive Reply where
  /-- Put this in the place of the content. -/
  | content (text : String)
  /-- Put a text in the place of every occurrence of a word in the content. -/
  | replace (word replacement : String)
  | fail (reason : String)
deriving DecidableEq, Repr

/-- The answer that a reply is to a request. -/
def Reply.answer (request : Request) : Reply → Except Refusal String
  | content text => .ok text
  | replace word replacement => .ok <| String.ofList <|
      Text.replaceAll word.toList replacement.toList request.content.toList
  | fail reason => .error (.failed request.target reason)

/-- The replies that are left, and the requests so far. -/
structure Script where
  /-- Replies for all files. -/
  shared : List Reply
  /-- Replies for one file each. -/
  byFile : List (String × List Reply)
  /-- How often a reply for all files was used. -/
  used : Nat
  requests : List Request
deriving DecidableEq, Repr

namespace Script

/-- A script before its first request. -/
def ofReplies (shared : List Reply) (byFile : List (String × List Reply)) : Script :=
  ⟨shared, byFile, 0, []⟩

/-- The script with other replies for a file. -/
def withReplies (script : Script) (file : String) (replies : List Reply) : Script :=
  { script with byFile := script.byFile.map fun entry =>
      if entry.1 = file then (file, replies) else entry }

/-- The next reply for all files, if there is any. -/
def nextShared (script : Script) : Option Reply × Script :=
  (script.shared[script.used % script.shared.length]?, { script with used := script.used + 1 })

/-- The next reply for a file, if there is any. -/
def next (script : Script) (file : String) : Option Reply × Script :=
  match script.byFile.lookup file with
  | some [reply] => (some reply, script)
  | some (reply :: replies) => (some reply, script.withReplies file replies)
  | _ => script.nextShared

/-- The answer to a request. -/
def answer (request : Request) (script : Script) : Except Refusal String × Script :=
  let (reply?, script) := script.next request.target
  let answer := match reply? with
    | some reply => reply.answer request
    | none => .ok request.content
  (answer, { script with requests := script.requests ++ [request] })

/-- The script with its requests forgotten. -/
def forget (script : Script) : Script := { script with requests := [] }

end Script

/-- The service that answers by a script after a pause. -/
def Service.scripted (pause : Retry.Span) : Service Script where
  name := "mock"
  answersPrompts := true
  pause
  repair := Script.answer

end LivePreview.Repair
