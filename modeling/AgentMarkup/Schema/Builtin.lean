import AgentMarkup.Schema.Basic

/-!
The primitives that every document may use.
-/

set_option autoImplicit false
set_option relaxedAutoImplicit false

namespace AgentMarkup.Schema

def message : Schema :=
  stated "message"
    [("role", .defaulting .string (.str "assistant")),
      ("stream", .defaulting .boolean (.bool false)),
      ("id", .optional .string)]
    ["idle", "streaming", "complete"]
    ["message.send", "message.receive"]

def stream : Schema :=
  stated "stream"
    [("speed", .defaulting .string (.str "normal")),
      ("cursor", .defaulting .boolean (.bool true)),
      ("markdown", .defaulting .boolean (.bool false))]
    ["idle", "generating", "complete", "paused", "error"]
    ["stream.start", "stream.chunk", "stream.complete", "stream.pause", "stream.error"]

def think : Schema :=
  stated "think"
    [("model", .defaulting .string (.str "chain-of-thought")),
      ("visible", .defaulting .boolean (.bool false)),
      ("depth", .defaulting .string (.str "medium"))]
    ["hidden", "visible"]
    ["think.reveal", "think.hide"]

def tool : Schema :=
  stated "tool"
    [("name", .mandatory .string),
      ("args", .defaulting .object (.obj [])),
      ("status", .defaulting .string (.str "pending")),
      ("mode", .defaulting .string (.str "automatic"))]
    ["pending", "running", "complete", "error", "cancelled"]
    ["tool.start", "tool.progress", "tool.complete", "tool.error"]

def artifact : Schema :=
  stated "artifact"
    [("type", .mandatory .string),
      ("language", .optional .string),
      ("title", .optional .string),
      ("copyable", .defaulting .boolean (.bool false)),
      ("downloadable", .defaulting .boolean (.bool false))]
    ["loading", "ready", "error"]
    ["artifact.load", "artifact.ready", "artifact.error"]

def approve : Schema :=
  stated "approve"
    [("type", .mandatory .string),
      ("action", .mandatory .string),
      ("warning", .optional .string),
      ("timeout", .optional .number)]
    ["pending", "showing", "approved", "denied", "expired"]
    ["approve.request", "approve.show", "approve.approve", "approve.deny"]

def context : Schema :=
  stated "context"
    [("type", .mandatory .string),
      ("id", .mandatory .string),
      ("name", .optional .string),
      ("removable", .defaulting .boolean (.bool true))]
    ["attached", "loading", "ready", "error"]
    ["context.attach", "context.load", "context.remove"]

def error : Schema :=
  stated "error"
    [("code", .mandatory .string),
      ("message", .mandatory .string),
      ("recoverable", .defaulting .boolean (.bool false))]
    ["visible", "acknowledged", "dismissed"]
    ["error.occur", "error.retry", "error.dismiss"]

def input : Schema :=
  stated "input"
    [("type", .mandatory .string),
      ("placeholder", .optional .string),
      ("multiline", .defaulting .boolean (.bool false)),
      ("maxlength", .optional .number)]
    ["empty", "typing", "filled", "submitting", "submitted"]
    ["input.focus", "input.change", "input.submit"]

def branch : Schema :=
  stated "branch"
    [("id", .mandatory .string),
      ("label", .optional .string),
      ("active", .defaulting .boolean (.bool false)),
      ("mergeable", .defaulting .boolean (.bool false))]
    ["created", "expanded", "collapsed", "active", "merged"]
    ["branch.create", "branch.expand", "branch.activate", "branch.merge"]

/-- The built-in primitives under their kinds. -/
def builtins : Table Schema :=
  .ofList ([message, stream, think, tool, artifact, approve, context, error, input, branch].map
    fun schema ↦ (schema.kind, schema))

def builtin? (kind : String) : Option Schema :=
  builtins.get? kind

end AgentMarkup.Schema
