import Mathlib.Data.List.Chain
import Mathlib.Data.List.Nodup

/-!
# Intrusive lists

Elements that are linked through two fields of their own: `next` is the next element and `null`
behind the last one, `prev` is the element before, and that of the first one is the last, which
makes it the tail pointer of the list.

- The fields are functions of the element; an operation is described by the fields after it, at
  the elements of the list.
-/

namespace GbaStation.IntrusiveList

open List (nodup_append dropLast_subset mem_of_mem_tail)

universe u

variable {α : Type u} {null : α} {next prev next' prev' : α → α} {head : α} {l pre post : List α}
  {a b : α}

/-- Consecutive elements link to each other. -/
def Links (next prev : α → α) (l : List α) : Prop := l.IsChain fun a b => next a = b ∧ prev b = a

/-- The list of the elements that are linked from `head`. -/
structure Linked (null : α) (next prev : α → α) (head : α) (l : List α) : Prop where
  nodup : l.Nodup
  null_notMem : null ∉ l
  head_eq : head = l.head?.getD null
  links : Links next prev l
  last : ∀ t ∈ l.getLast?, next t = null
  back : ∀ h ∈ l.head?, ∀ t ∈ l.getLast?, prev h = t

/-! ## Links -/

theorem links_append : Links next prev (pre ++ post) ↔
    Links next prev pre ∧ Links next prev post ∧
      ∀ a ∈ pre.getLast?, ∀ b ∈ post.head?, next a = b ∧ prev b = a :=
  List.isChain_append

theorem links_cons : Links next prev (a :: l) ↔
    (∀ b ∈ l.head?, next a = b ∧ prev b = a) ∧ Links next prev l :=
  List.isChain_cons

/-- Only the fields between two elements matter: `next` but at the last one, `prev` but at the
first one. -/
theorem links_congr (h : Links next prev l) (hnext : ∀ a ∈ l.dropLast, next' a = next a)
    (hprev : ∀ a ∈ l.tail, prev' a = prev a) : Links next' prev' l := by
  induction l with
  | nil => exact .nil
  | cons a l ih =>
    cases l with
    | nil => exact .singleton a
    | cons b l =>
      rw [links_cons] at h ⊢
      obtain ⟨hab, hl⟩ := h
      constructor
      · intro c hc
        obtain rfl : b = c := by simpa using hc
        have := hab b rfl
        rw [hnext a (by simp), hprev b (by simp)]
        exact this
      · refine ih hl ?_ ?_
        · intro c hc
          exact hnext c (by simp [hc])
        · intro c hc
          exact hprev c (List.mem_cons_of_mem _ hc)

theorem notMem_dropLast (h : l.Nodup) {t : α} (ht : t ∈ l.getLast?) : t ∉ l.dropLast := by
  rw [← List.dropLast_append_getLast? t ht] at h
  have := (nodup_append.mp h).2.2
  intro hmem
  exact this t hmem t (by simp) rfl

theorem notMem_tail (h : l.Nodup) {t : α} (ht : t ∈ l.head?) : t ∉ l.tail := by
  cases l with
  | nil => cases ht
  | cons b l =>
    obtain rfl : b = t := by simpa using ht
    exact (List.nodup_cons.mp h).1

namespace Linked

/-- Nothing but the fields of the elements matters. -/
theorem congr (h : Linked null next prev head l) (hnext : ∀ a ∈ l, next' a = next a)
    (hprev : ∀ a ∈ l, prev' a = prev a) : Linked null next' prev' head l where
  nodup := h.nodup
  null_notMem := h.null_notMem
  head_eq := h.head_eq
  links := links_congr h.links (fun a ha => hnext a (dropLast_subset _ ha))
    (fun a ha => hprev a (mem_of_mem_tail ha))
  last := by
    intro t ht
    rw [hnext t (List.mem_of_mem_getLast? ht)]
    exact h.last t ht
  back := by
    intro b hb t ht
    rw [hprev b (List.mem_of_mem_head? hb)]
    exact h.back b hb t ht

theorem empty : Linked null next prev null [] where
  nodup := List.nodup_nil
  null_notMem := List.not_mem_nil
  head_eq := rfl
  links := .nil
  last := by simp
  back := by simp

/-- A list is empty when its head is null. -/
theorem eq_nil (h : Linked null next prev null l) : l = [] := by
  cases l with
  | nil => rfl
  | cons a l =>
    have := h.head_eq
    exact absurd (this ▸ List.mem_cons_self) h.null_notMem

/-- The head of a list that has elements is the first of them. -/
theorem head_mem (h : Linked null next prev head l) (hne : head ≠ null) : head ∈ l.head? := by
  cases l with
  | nil => exact absurd h.head_eq hne
  | cons a l =>
    rw [h.head_eq]
    rfl

/-- The element behind another one. -/
theorem next_eq (h : Linked null next prev head (pre ++ a :: post)) :
    next a = post.head?.getD null := by
  cases post with
  | nil => exact h.last a (by simp)
  | cons b post => exact ((links_cons.mp (links_append.mp h.links).2.1).1 b rfl).1

/-- The element before another one. -/
theorem prev_eq {p : α} (h : Linked null next prev head (pre ++ a :: post))
    (hp : p ∈ pre.getLast?) : prev a = p :=
  ((links_append.mp h.links).2.2 p hp a rfl).2

/-! ## Operations -/

/-- A first element is its own tail. -/
theorem single (ha : a ≠ null) (hnext : next a = null) (hprev : prev a = a) :
    Linked null next prev a [a] where
  nodup := List.nodup_singleton a
  null_notMem := by simpa using ha.symm
  head_eq := rfl
  links := .singleton a
  last := by simpa using hnext
  back := by simpa using hprev

/-- An element is put behind the tail. -/
theorem pushBack (h : Linked null next prev head l) (ha : a ≠ null) (hfresh : a ∉ l) {f t : α}
    (hf : f ∈ l.head?) (ht : t ∈ l.getLast?) (hnexta : next' a = null) (hnextt : next' t = a)
    (hnext : ∀ b ∈ l, b ≠ t → next' b = next b) (hpreva : prev' a = t) (hprevf : prev' f = a)
    (hprev : ∀ b ∈ l, b ≠ f → prev' b = prev b) : Linked null next' prev' head (l ++ [a]) where
  nodup := by
    rw [nodup_append]
    refine ⟨h.nodup, List.nodup_singleton a, ?_⟩
    intro b hb c hc
    rw [List.mem_singleton.mp hc]
    rintro rfl
    exact hfresh hb
  null_notMem := by simp [h.null_notMem, ha.symm]
  head_eq := by
    rw [h.head_eq, List.head?_append, hf]
    rfl
  links := by
    rw [links_append]
    refine ⟨links_congr h.links ?_ ?_, .singleton a, ?_⟩
    · intro b hb
      refine hnext b (dropLast_subset _ hb) ?_
      rintro rfl
      exact notMem_dropLast h.nodup ht hb
    · intro b hb
      refine hprev b (mem_of_mem_tail hb) ?_
      rintro rfl
      exact notMem_tail h.nodup hf hb
    · intro b hb c hc
      obtain rfl : t = b := Option.some.inj (ht.symm.trans hb)
      obtain rfl : a = c := by simpa using hc
      exact ⟨hnextt, hpreva⟩
  last := by simpa using hnexta
  back := by
    intro b hb t' ht'
    rw [List.head?_append, hf] at hb
    obtain rfl : f = b := by simpa using hb
    obtain rfl : a = t' := by simpa using ht'
    exact hprevf

/-- The head is taken out. The next element, if any, is the head then. -/
theorem eraseHead (h : Linked null next prev head (a :: l))
    (hnext : ∀ b ∈ l, next' b = next b) (hprevf : ∀ f ∈ l.head?, prev' f = prev a)
    (hprev : ∀ b ∈ l.tail, prev' b = prev b) : Linked null next' prev' (next a) l where
  nodup := (List.nodup_cons.mp h.nodup).2
  null_notMem := fun hn => h.null_notMem (List.mem_cons_of_mem _ hn)
  head_eq := by
    cases l with
    | nil => exact h.last a rfl
    | cons b l => exact ((links_cons.mp h.links).1 b rfl).1
  links := links_congr (links_cons.mp h.links).2
    (fun b hb => hnext b (dropLast_subset _ hb)) hprev
  last := by
    intro t ht
    rw [hnext t (List.mem_of_mem_getLast? ht)]
    refine h.last t ?_
    rw [List.getLast?_cons, ht]
    rfl
  back := by
    intro f hf t ht
    rw [hprevf f hf]
    refine h.back a rfl t ?_
    rw [List.getLast?_cons, ht]
    rfl

/-- An element between two others is taken out. -/
theorem eraseMiddle {p q : α} (h : Linked null next prev head (pre ++ a :: post))
    (hp : p ∈ pre.getLast?) (hq : q ∈ post.head?) (hnextp : next' p = q)
    (hnext : ∀ b ∈ pre ++ post, b ≠ p → next' b = next b) (hprevq : prev' q = p)
    (hprev : ∀ b ∈ pre ++ post, b ≠ q → prev' b = prev b) :
    Linked null next' prev' head (pre ++ post) := by
  have hsub : (pre ++ post).Sublist (pre ++ a :: post) :=
    (List.Sublist.refl pre).append (List.sublist_cons_self a post)
  have hnodup := hsub.nodup h.nodup
  obtain ⟨hlpre, hlapost, -⟩ := links_append.mp h.links
  have hlpost := (links_cons.mp hlapost).2
  have hpq : p ≠ q := by
    rintro rfl
    exact (nodup_append.mp hnodup).2.2 p (List.mem_of_mem_getLast? hp) p
      (List.mem_of_mem_head? hq) rfl
  constructor
  case nodup => exact hnodup
  case null_notMem => exact fun hn => h.null_notMem (hsub.subset hn)
  case head_eq =>
    rw [h.head_eq]
    cases pre with
    | nil => cases hp
    | cons c pre => rfl
  case links =>
    rw [links_append]
    refine ⟨links_congr hlpre ?_ ?_, links_congr hlpost ?_ ?_, ?_⟩
    · intro b hb
      refine hnext b (List.mem_append_left _ (dropLast_subset _ hb)) ?_
      rintro rfl
      exact notMem_dropLast (nodup_append.mp hnodup).1 hp hb
    · intro b hb
      refine hprev b (List.mem_append_left _ (mem_of_mem_tail hb)) ?_
      rintro rfl
      exact (nodup_append.mp hnodup).2.2 b (mem_of_mem_tail hb) b
        (List.mem_of_mem_head? hq) rfl
    · intro b hb
      refine hnext b (List.mem_append_right _ (dropLast_subset _ hb)) ?_
      rintro rfl
      exact (nodup_append.mp hnodup).2.2 b (List.mem_of_mem_getLast? hp) b
        (dropLast_subset _ hb) rfl
    · intro b hb
      refine hprev b (List.mem_append_right _ (mem_of_mem_tail hb)) ?_
      rintro rfl
      exact notMem_tail (nodup_append.mp hnodup).2.1 hq hb
    · intro b hb c hc
      obtain rfl : p = b := Option.some.inj (hp.symm.trans hb)
      obtain rfl : q = c := Option.some.inj (hq.symm.trans hc)
      exact ⟨hnextp, hprevq⟩
  case last =>
    intro t ht
    have hmem : t ∈ post.getLast? := by
      cases post with
      | nil => cases hq
      | cons c post => simpa [List.getLast?_append] using ht
    have htp : t ≠ p := by
      rintro rfl
      exact (nodup_append.mp hnodup).2.2 t (List.mem_of_mem_getLast? hp) t
        (List.mem_of_mem_getLast? hmem) rfl
    rw [hnext t (List.mem_append_right _ (List.mem_of_mem_getLast? hmem)) htp]
    refine h.last t ?_
    cases post with
    | nil => cases hq
    | cons c post => simpa [List.getLast?_append] using hmem
  case back =>
    intro f hf t ht
    cases pre with
    | nil => cases hp
    | cons c pre =>
      obtain rfl : c = f := by simpa using hf
      have hcq : c ≠ q := by
        rintro rfl
        exact (nodup_append.mp hnodup).2.2 c (by simp) c (List.mem_of_mem_head? hq) rfl
      rw [hprev c (by simp) hcq]
      refine h.back c (by simp) t ?_
      cases post with
      | nil => cases hq
      | cons d post =>
        rw [List.getLast?_append_cons] at ht
        rw [List.getLast?_append_cons, List.getLast?_cons_cons]
        exact ht

/-- The tail is taken out behind another element. -/
theorem eraseTail {p f : α} (h : Linked null next prev head (pre ++ [a])) (hp : p ∈ pre.getLast?)
    (hf : f ∈ pre.head?) (hnextp : next' p = null)
    (hnext : ∀ b ∈ pre, b ≠ p → next' b = next b) (hprevf : prev' f = p)
    (hprev : ∀ b ∈ pre, b ≠ f → prev' b = prev b) : Linked null next' prev' head pre := by
  have hnodup := (nodup_append.mp h.nodup).1
  constructor
  case nodup => exact hnodup
  case null_notMem => exact fun hn => h.null_notMem (List.mem_append_left _ hn)
  case head_eq =>
    rw [h.head_eq, List.head?_append, hf]
    rfl
  case links =>
    refine links_congr (links_append.mp h.links).1 ?_ ?_
    · intro b hb
      refine hnext b (dropLast_subset _ hb) ?_
      rintro rfl
      exact notMem_dropLast hnodup hp hb
    · intro b hb
      refine hprev b (mem_of_mem_tail hb) ?_
      rintro rfl
      exact notMem_tail hnodup hf hb
  case last =>
    intro t ht
    obtain rfl : p = t := Option.some.inj (hp.symm.trans ht)
    exact hnextp
  case back =>
    intro b hb t ht
    obtain rfl : p = t := Option.some.inj (hp.symm.trans ht)
    obtain rfl : f = b := Option.some.inj (hf.symm.trans hb)
    exact hprevf

end Linked

end GbaStation.IntrusiveList
