import FormatPreview.Options
import FormatPreview.Proofs.Dictionary

/-!
Layers of options laid over one another, two at a time. It makes no difference in which order this is
done: each setting is that of the topmost layer that has one, and whether to compare is up to the
topmost layer alone. Options that set nothing change nothing at the bottom, and nothing but whether to
compare at the top.
-/
namespace FormatPreview.Options

theorem overlay_assoc (top middle base : Options) :
    (top.overlay middle).overlay base = top.overlay (middle.overlay base) := by
  simp only [overlay, Dictionary.overlay_assoc, Option.or_assoc]

theorem overlay_unset (top : Options) : top.overlay unset = top := by
  simp [overlay, unset]

theorem unset_overlay (base : Options) : unset.overlay base = { base with compares := false } := by
  simp [overlay, unset]

/-- A layer that has been laid on top changes nothing underneath. -/
theorem overlay_absorb (top base : Options) :
    (top.overlay base).overlay top = top.overlay base := by
  have parser : (top.parser.or base.parser).or top.parser = top.parser.or base.parser := by
    cases top.parser <;> simp
  have filepath : (top.filepath.or base.filepath).or top.filepath = top.filepath.or base.filepath := by
    cases top.filepath <;> simp
  simp only [overlay, Dictionary.overlay_absorb, parser, filepath]

theorem overlay_self (o : Options) : o.overlay o = o := by
  simpa only [overlay_unset] using overlay_absorb o unset

/-- Layers laid over one another, with the order in which this is done. -/
inductive Stack where
  | layer (o : Options)
  | above (top base : Stack)

/-- The layers from the top down. -/
def Stack.layers : Stack → List Options
  | .layer o => [o]
  | .above top base => top.layers ++ base.layers

def Stack.merged : Stack → Options
  | .layer o => o
  | .above top base => top.merged.overlay base.merged

/-- Layers from the top down, each laid over what is below it. -/
def overlaid (layers : List Options) : Options := layers.foldr overlay unset

/-- Each setting is that of the topmost layer that has one. -/
structure Topmost (layers : List Options) (o : Options) : Prop where
  compares : o.compares = (layers.head?.map (·.compares)).getD false
  parser : o.parser = layers.findSome? (·.parser)
  filepath : o.filepath = layers.findSome? (·.filepath)
  extra : ∀ key, o.extra.get? key = layers.findSome? (·.extra.get? key)

namespace Topmost

variable {layers : List Options} {o o' : Options}

/-- The layers settle all there is in the options. -/
theorem unique (first : Topmost layers o) (second : Topmost layers o') : o = o' := by
  obtain ⟨compares, parser, filepath, extra⟩ := o
  obtain ⟨compares', parser', filepath', extra'⟩ := o'
  have same : extra = extra' :=
    Dictionary.ext_get? fun key => (first.extra key).trans (second.extra key).symm
  rw [Options.mk.injEq]
  exact ⟨first.compares.trans second.compares.symm, first.parser.trans second.parser.symm,
    first.filepath.trans second.filepath.symm, same⟩

theorem push (top : Options) (below : Topmost layers o) :
    Topmost (top :: layers) (top.overlay o) := by
  constructor
  · rfl
  · rw [List.findSome?_cons, ← below.parser, overlay]
    cases top.parser <;> rfl
  · rw [List.findSome?_cons, ← below.filepath, overlay]
    cases top.filepath <;> rfl
  · intro key
    rw [List.findSome?_cons, ← below.extra, overlay, Dictionary.get?_overlay]
    cases top.extra.get? key <;> rfl

end Topmost

theorem topmost_overlaid (layers : List Options) : Topmost layers (overlaid layers) := by
  induction layers with
  | nil => exact ⟨rfl, rfl, rfl, fun _ => rfl⟩
  | cons top below ih => exact ih.push top

theorem overlaid_append (upper lower : List Options) (some : upper ≠ []) :
    overlaid (upper ++ lower) = (overlaid upper).overlay (overlaid lower) := by
  induction upper with
  | nil => exact absurd rfl some
  | cons top below ih =>
    cases below with
    -- The lowest of the upper layers lies on nothing, and now on the lower layers.
    | nil => simp only [overlaid, List.cons_append, List.nil_append, List.foldr_cons, List.foldr_nil,
        overlay_unset]
    | cons next below =>
      have rest := ih (by simp)
      rw [List.cons_append, overlaid, List.foldr_cons, ← overlaid, rest, ← overlay_assoc]
      rfl

theorem Stack.layers_ne_nil (s : Stack) : s.layers ≠ [] := by
  induction s with
  | layer o => simp [layers]
  | above top base ihTop _ => simp [layers, ihTop]

theorem Stack.merged_eq (s : Stack) : s.merged = overlaid s.layers := by
  induction s with
  | layer o => exact (overlay_unset o).symm
  | above top base ihTop ihBase =>
    rw [merged, layers, overlaid_append _ _ top.layers_ne_nil, ihTop, ihBase]

/-- The laws of layers, for any options: they can be laid over one another in any order, and each
setting comes from the topmost layer that has one. -/
theorem layers_merge_by_topmost :
    (∀ a b c : Options, (a.overlay b).overlay c = a.overlay (b.overlay c)) ∧
    (∀ a : Options, a.overlay a = a) ∧
    (∀ a b : Options, (a.overlay b).overlay a = a.overlay b) ∧
    (∀ a : Options, a.overlay unset = a) ∧
    (∀ b : Options, unset.overlay b = { b with compares := false }) ∧
    (∀ s : Stack, s.merged = overlaid s.layers) ∧
    ∀ layers o, Topmost layers o ↔ o = overlaid layers := by
  refine ⟨overlay_assoc, overlay_self, overlay_absorb, overlay_unset, unset_overlay,
    Stack.merged_eq, fun layers o => ?_⟩
  constructor
  · intro topmost
    exact topmost.unique (topmost_overlaid layers)
  · rintro rfl
    exact topmost_overlaid layers

end FormatPreview.Options
