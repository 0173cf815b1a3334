import Acrylius.Core.Revocation
import Acrylius.Core.Screen
import Acrylius.Core.Stranding
import Acrylius.Plugins.Announced

/-! The built-in plugins keep the laws that the theorems about the core ask of plugins. -/
namespace Acrylius
open Proto Std Share

variable {X : Crates}

namespace Builtin

theorem call_shows (b : Builtin X) (cx : Cx) (c : Call) :
    ∃ es, (Plugin.call b cx c).2.1.ui = cx.ui ++ es ∧ ∀ e ∈ es, e.own := by
  by_cases hshare : b.isShare
  · obtain ⟨p, rfl⟩ := b.eq_share hshare
    rw [call_share]
    exact p.call_shows cx c
  · obtain ⟨own, -, hunder⟩ := b.call_under cx c (Bool.of_not_eq_true hshare)
    obtain ⟨es, hui, hes⟩ := hunder.tells
    refine ⟨es, hui, fun e he => ?_⟩
    obtain ⟨peer, ty, body, rfl⟩ := hes e he
    rfl

theorem discreet : Plugin.Discreet (Builtin X) := by
  intro b cx c e he
  obtain ⟨es, hui, hes⟩ := b.call_shows cx c
  rw [hui, List.mem_append] at he
  exact he.imp id fun hnew => e.lists_of_own (hes e hnew)

theorem modest : Plugin.Modest (Builtin X) := by
  intro b cx c hdemure e he
  obtain ⟨es, hui, hes⟩ := b.call_shows cx c
  rw [hui, List.mem_append] at he
  exact he.elim (hdemure e) fun hnew => e.presence_of_own (hes e hnew)

theorem call_unwoken (b : Builtin X) (cx : Cx) (c : Call) :
    (Plugin.call b cx c).2.1.nowMs = cx.nowMs ∧ (Plugin.call b cx c).2.1.wakeAt = cx.wakeAt := by
  by_cases hshare : b.isShare
  · obtain ⟨p, rfl⟩ := b.eq_share hshare
    rw [call_share]
    exact p.call_unwoken cx c
  · obtain ⟨own, -, hunder⟩ := b.call_under cx c (Bool.of_not_eq_true hshare)
    have hasked := hunder.asked
    simp only [Cx.asked, Prod.mk.injEq] at hasked
    exact ⟨hasked.1, hasked.2.1⟩

theorem prompt : Plugin.Prompt (Builtin X) where
  clock b cx c := (b.call_unwoken cx c).1
  wakes b cx c w hw := .inl (by rwa [← (b.call_unwoken cx c).2])

def share? : Builtin X → Option (SharePlugin X)
  | .share p => some p
  | _ => none

theorem eq_of_share? {b : Builtin X} {p : SharePlugin X} (h : b.share? = some p) :
    b = .share p := by
  cases b with
  | share q => rw [← Option.some.inj h]
  | _ => cases h

theorem isShare_of_share? {b : Builtin X} (h : b.share? = none) : b.isShare = false := by
  cases b with
  | share p => cases h
  | _ => rfl

/-- Of the built-in plugins the share plugin alone asks for channels, and announces in its name. -/
def announcing (X : Crates) : Announcing X (Builtin X) where
  share := share?
  asks b p cx c h := by rw [eq_of_share? h, call_share]
  quiet b cx c h := by
    obtain ⟨own, -, hunder⟩ := b.call_under cx c (isShare_of_share? h)
    have hasked := hunder.asked
    simp only [Cx.asked, Prod.mk.injEq] at hasked
    exact hasked.2.2
  tells b p cx c h := by rw [eq_of_share? h, call_share]
  silent b cx c h := by
    obtain ⟨own, hown, hunder⟩ := b.call_under cx c (isShare_of_share? h)
    obtain ⟨es, hui, hes⟩ := hunder.tells
    have hnone : es.filterMap (UiEvent.finish X) = [] := by
      rw [List.filterMap_eq_nil_iff]
      intro e he
      obtain ⟨peer, ty, body, rfl⟩ := hes e he
      exact if_neg fun h => hown h.1
    rw [hui, List.filterMap_append, hnone, List.append_nil]

theorem calm : Plugin.Calm (Builtin X) where
  connected b cx peer :=
    ⟨(b.call_unwoken cx (.connected peer)).2,
      (announcing X).call_quiet b cx (c := .connected peer) nofun nofun⟩
  finished b cx t ok detail :=
    ⟨(b.call_unwoken cx (.bulkFinished t ok detail)).2,
      (announcing X).call_quiet b cx (c := .bulkFinished t ok detail) nofun nofun⟩

end Builtin
end Acrylius
