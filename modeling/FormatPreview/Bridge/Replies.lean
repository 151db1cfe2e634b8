import FormatPreview.Bridge.Process

/-!
Programs that answer from a list of replies: the first one whose mark occurs in the request. A
request without a mark in it is answered by nothing.
-/
namespace FormatPreview.Bridge

structure MarkedOutput where
  mark : List UInt8
  output : Output

/-- Whether a part occurs somewhere in bytes. -/
def occurs (part : List UInt8) : List UInt8 → Bool
  | [] => part.isEmpty
  | b :: rest => part.isPrefixOf (b :: rest) || occurs part rest

theorem occurs_iff {part bytes : List UInt8} : occurs part bytes ↔ part <:+: bytes := by
  induction bytes with
  | nil => simp [occurs]
  | cons b rest ih => simp [occurs, ih, List.infix_cons_iff]

def replying (replies : List MarkedOutput) : Program := some fun request =>
  match replies.find? fun r => occurs r.mark request with
  | some r => .ended r.output
  | none => .ended ⟨[], [], .code 0⟩

end FormatPreview.Bridge
