import Mathlib.Data.List.Flatten
import Mathlib.Data.List.Perm.Basic

/-!
# NanoEngine.Lib.Merging — grouping a list by a key and merging neighbours

* `insertGroup`, `groupBy`: a dictionary of lists in the order in which the keys first occur.
* `mergeLast`, `mergeAll`: an item is merged with the last one put out, where that is allowed.
* `exists_parts`: what holds of one item and of each merge holds of every merged item and the items it was made from.
-/

namespace Merging

variable {α κ : Type*}

/-! ## Groups -/

section Groups

variable [DecidableEq κ]

/-- `groups.setdefault(key, []).append(a)`. -/
def insertGroup (key : κ) (a : α) : List (κ × List α) → List (κ × List α)
  | [] => [(key, [a])]
  | group :: rest => if group.1 = key then (group.1, group.2 ++ [a]) :: rest else group :: insertGroup key a rest

def groupBy (key : α → κ) (l : List α) : List (κ × List α) :=
  l.foldl (fun groups a => insertGroup (key a) a groups) []

theorem insertGroup_perm (key : κ) (a : α) (groups : List (κ × List α)) :
    ((insertGroup key a groups).flatMap Prod.snd).Perm (groups.flatMap Prod.snd ++ [a]) := by
  induction groups with
  | nil => exact .refl _
  | cons group rest ih =>
    unfold insertGroup
    split
    · simpa only [List.flatMap_cons, List.append_assoc] using List.perm_append_comm.append_left group.2
    · simpa only [List.flatMap_cons, List.append_assoc] using ih.append_left group.2

/-- The groups hold the items of the list. -/
theorem groupBy_perm (key : α → κ) (l : List α) : ((groupBy key l).flatMap Prod.snd).Perm l := by
  suffices h : ∀ groups : List (κ × List α),
      ((l.foldl (fun groups a => insertGroup (key a) a groups) groups).flatMap Prod.snd).Perm
        (groups.flatMap Prod.snd ++ l) from h []
  induction l with
  | nil => intro groups; simp
  | cons a l ih =>
    intro groups
    rw [List.foldl_cons]
    refine (ih _).trans ?_
    rw [← List.singleton_append, ← List.append_assoc]
    exact (insertGroup_perm (key a) a groups).append_right l

end Groups

/-! ## Merging with the last item -/

section Merge

variable {merge : α → α → Option α}

/-- `out` with `a` at its end, merged with the last item where `merge` allows it. -/
def mergeLast (merge : α → α → Option α) (out : List α) (a : α) : List α :=
  match out.getLast?.bind (merge · a) with
  | some merged => out.dropLast ++ [merged]
  | none => out ++ [a]

def mergeAll (merge : α → α → Option α) (out l : List α) : List α := l.foldl (mergeLast merge) out

theorem mergeAll_append (out l l' : List α) :
    mergeAll merge out (l ++ l') = mergeAll merge (mergeAll merge out l) l' :=
  List.foldl_append

theorem mergeLast_nil (a : α) : mergeLast merge [] a = [a] := rfl

theorem mergeLast_concat (out : List α) (p a : α) :
    mergeLast merge (out ++ [p]) a = out ++ ((merge p a).map ([·])).getD [p, a] := by
  unfold mergeLast
  cases h : merge p a <;> simp [h]

variable {R : α → List α → Prop}

theorem forall₂_concat {out : List α} {p : α} {parts : List (List α)} (h : List.Forall₂ R (out ++ [p]) parts) :
    ∃ front last, parts = front ++ [last] ∧ List.Forall₂ R out front ∧ R p last := by
  induction out generalizing parts with
  | nil =>
    obtain _ | ⟨hp, hnil⟩ := h
    cases hnil
    exact ⟨[], _, rfl, .nil, hp⟩
  | cons a out ih =>
    obtain _ | ⟨ha, hrest⟩ := h
    obtain ⟨front, last, rfl, hfront, hp⟩ := ih hrest
    exact ⟨_ :: front, last, rfl, .cons ha hfront, hp⟩

theorem mergeLast_parts (hone : ∀ a, R a [a])
    (hmerge : ∀ {p a q part}, R p part → merge p a = some q → R q (part ++ [a])) {out : List α}
    {parts : List (List α)} (h : List.Forall₂ R out parts) (a : α) :
    ∃ parts' : List (List α), parts'.flatten = parts.flatten ++ [a] ∧ List.Forall₂ R
      (mergeLast merge out a) parts' := by
  obtain rfl | ⟨out, p, rfl⟩ := out.eq_nil_or_concat'
  · cases h
    exact ⟨[[a]], rfl, .cons (hone a) .nil⟩
  · obtain ⟨parts, part, rfl, hparts, hp⟩ := forall₂_concat h
    rw [mergeLast_concat]
    cases hq : merge p a with
    | none => exact ⟨parts ++ [part, [a]], by simp, List.rel_append hparts (.cons hp (.cons (hone a) .nil))⟩
    | some q => exact ⟨parts ++ [part ++ [a]], by simp, List.rel_append hparts (.cons (hmerge hp hq) .nil)⟩

/-- Each merged item stands in `R` to a run of the items, and these runs are the whole list. -/
theorem exists_parts (hone : ∀ a, R a [a])
    (hmerge : ∀ {p a q part}, R p part → merge p a = some q → R q (part ++ [a])) (l : List α) :
    ∃ parts : List (List α), parts.flatten = l ∧ List.Forall₂ R (mergeAll merge [] l) parts := by
  suffices h : ∀ (out : List α) (parts : List (List α)), List.Forall₂ R out parts →
      ∃ parts' : List (List α), parts'.flatten = parts.flatten ++ l ∧
        List.Forall₂ R (mergeAll merge out l) parts' by
    simpa using h [] [] .nil
  induction l with
  | nil => exact fun out parts h => ⟨parts, by simp, h⟩
  | cons a l ih =>
    intro out parts h
    obtain ⟨parts₁, hflat₁, h₁⟩ := mergeLast_parts hone hmerge h a
    obtain ⟨parts₂, hflat₂, h₂⟩ := ih _ _ h₁
    exact ⟨parts₂, by rw [hflat₂, hflat₁, List.append_assoc, List.singleton_append], h₂⟩

end Merge

end Merging
