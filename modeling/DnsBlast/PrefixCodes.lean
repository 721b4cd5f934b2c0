import Mathlib.InformationTheory.Coding.UniquelyDecodable
import Mathlib.Data.List.Infix

/-! Codes none of whose words is the beginning of another. They can be read from left
to right, so a concatenation of their words determines the words. -/
namespace PrefixCodes

open InformationTheory

variable {α β : Type*}

def PrefixFree (S : Set (List α)) : Prop := ∀ u ∈ S, ∀ v ∈ S, u <+: v → u = v

/-- Words that begin the same string are the same word, and what follows them agrees. -/
theorem PrefixFree.split {S : Set (List α)} (h : PrefixFree S) {u v s t : List α}
    (hu : u ∈ S) (hv : v ∈ S) (he : u ++ s = v ++ t) : u = v ∧ s = t := by
  have huv : u = v := by
    rcases List.prefix_or_prefix_of_prefix ⟨s, rfl⟩ (he ▸ ⟨t, rfl⟩ : v <+: u ++ s) with hp | hp
    · exact h u hu v hv hp
    · exact (h v hv u hu hp).symm
  subst huv
  exact ⟨rfl, List.append_cancel_left he⟩

/-- Only the empty word must be excluded: it can be repeated without a trace. -/
theorem PrefixFree.uniquelyDecodable {S : Set (List α)} (h : PrefixFree S) (hne : [] ∉ S) :
    UniquelyDecodable S := by
  intro us
  induction us with
  | nil =>
    intro vs _ hvs he
    cases vs with
    | nil => rfl
    | cons v vs =>
      have hv : v = [] := (List.append_eq_nil_iff.mp he.symm).1
      exact (hne (hv ▸ hvs v List.mem_cons_self)).elim
  | cons u us ih =>
    intro vs hus hvs he
    cases vs with
    | nil =>
      have hu : u = [] := (List.append_eq_nil_iff.mp he).1
      exact (hne (hu ▸ hus u List.mem_cons_self)).elim
    | cons v vs =>
      obtain ⟨rfl, hrest⟩ := h.split (hus u List.mem_cons_self) (hvs v List.mem_cons_self) he
      rw [ih vs (fun w hw => hus w (List.mem_cons_of_mem _ hw))
        (fun w hw => hvs w (List.mem_cons_of_mem _ hw)) hrest]

/-- A tag that tells the length of its word makes any set of words prefix-free. -/
theorem tagged_prefixFree {T : Set (List α)} {tag : ℕ → α}
    (h : ∀ u ∈ T, ∀ v ∈ T, tag u.length = tag v.length → u.length = v.length) :
    PrefixFree ((fun u => tag u.length :: u) '' T) := by
  rintro _ ⟨u, hu, rfl⟩ _ ⟨v, hv, rfl⟩ hp
  obtain ⟨ht, hp⟩ := List.cons_prefix_cons.mp hp
  rw [hp.eq_of_length (h u hu v hv ht)]

/-- Lists of items are determined by their concatenated encodings. -/
theorem flatMap_injOn {S : Set β} {f : β → List α} (h : UniquelyDecodable (f '' S))
    (hf : Set.InjOn f S) {xs ys : List β} (hx : ∀ x ∈ xs, x ∈ S) (hy : ∀ y ∈ ys, y ∈ S)
    (he : xs.flatMap f = ys.flatMap f) : xs = ys := by
  have hmap : xs.map f = ys.map f := by
    apply h
    · exact List.forall_mem_map.mpr fun x hm => ⟨x, hx x hm, rfl⟩
    · exact List.forall_mem_map.mpr fun y hm => ⟨y, hy y hm, rfl⟩
    · simpa [List.flatMap_def] using he
  clear he
  induction xs generalizing ys with
  | nil => exact (List.map_eq_nil_iff.mp hmap.symm).symm
  | cons x xs ih =>
    cases ys with
    | nil => cases hmap
    | cons y ys =>
      obtain ⟨hxy, hrest⟩ := List.cons.inj hmap
      rw [hf (hx x List.mem_cons_self) (hy y List.mem_cons_self) hxy,
        ih (fun z hz => hx z (List.mem_cons_of_mem _ hz))
          (fun z hz => hy z (List.mem_cons_of_mem _ hz)) hrest]

end PrefixCodes
