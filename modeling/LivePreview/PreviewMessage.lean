import LivePreview.Bundle.Wrapper
import LivePreview.Json.Document
import LivePreview.Json.Reader
import LivePreview.Text.Blank
import LivePreview.Text.Search

/-!
Messages of a running preview about errors that happened in it.
-/

namespace LivePreview

/-- A message of a preview. -/
structure PreviewMessage where
  /-- The channel it came on. -/
  channel : String
  message : String
  stack : String
deriving DecidableEq, Repr

namespace PreviewMessage

/-- The text of the error for diagnosis: the stack, with the message on top unless it contains it. -/
def raw (report : PreviewMessage) : String :=
  let stack := Text.trim report.stack.toList
  if stack = [] then report.message
  else if Text.contains (Text.trim report.message.toList) stack then String.ofList stack
  else report.message ++ "\n" ++ String.ofList stack

/-- The message in the form in which previews send it. -/
def toJson (report : PreviewMessage) : Json :=
  .record [("type", .text report.channel),
    ("error", .record [("message", .text report.message), ("stack", .text report.stack)])]

/-- Read the error in a message: its text and its stack. -/
def readError? (d : Json) : Option (String × String) := do
  let record ← Document.record? ["message", "stack"] d
  let message ← Document.need record "message" Document.text?
  let stack ← Document.orElse record "stack" "" Document.text?
  pure (message, stack)

/-- Read a message. -/
def ofJson? (d : Json) : Option PreviewMessage := do
  let record ← Document.record? ["type", "error"] d
  let channel ← Document.need record "type" Document.text?
  let (message, stack) ← Document.need record "error" readError?
  pure ⟨channel, message, stack⟩

/-- Read the text of a message and keep it if it came on the given channel. Parts of the text that
belong to no field need not be numbers in range or texts without lone surrogates. -/
def parse? (source channel : String) : Option PreviewMessage :=
  ((Json.read false source.toList).toOption.bind ofJson?).filter (·.channel == channel)

end PreviewMessage

end LivePreview
