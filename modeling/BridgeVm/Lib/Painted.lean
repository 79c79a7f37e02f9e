import BridgeVm.Lib.Splice

/-!
# Windows of a buffer, painted one after the other

A buffer is painted window by window: `Painted window len f is xs ys` says that `ys` is `xs` with the element at place
`j` of window `i` changed by `f i j`, for the windows of `is`, and every other element kept. Loops over rows and over
the pixels of a row both have this shape.
-/

namespace BridgeVm.Lib

universe u v

variable {ι : Type u} {α : Type v} {window : ι → Nat} {len : Nat} {f g : ι → Nat → α → α} {i : ι}
  {is : List ι}
  {xs ys zs : List α}

/-- `ys` is `xs` with the windows of `is` changed by `f`. -/
structure Painted (window : ι → Nat) (len : Nat) (f : ι → Nat → α → α) (is : List ι)
    (xs ys : List α) : Prop where
  length : ys.length = xs.length
  inside : ∀ i ∈ is, ∀ j < len, ys[window i + j]? = (xs[window i + j]?).map (f i j)
  outside : ∀ k, (∀ i ∈ is, ¬(window i ≤ k ∧ k < window i + len)) → ys[k]? = xs[k]?

/-- Windows that change nothing. -/
theorem Painted.of_id (h : ∀ i ∈ is, ∀ j < len, ∀ x, f i j x = x) : Painted window len f is xs xs where
  length := rfl
  inside i hi j hj := by
    have hid : f i j = id := funext fun x => h i hi j hj x
    rw [hid, Option.map_id, id]
  outside _ _ := rfl

theorem Painted.nil : Painted window len f [] xs xs := .of_id (by simp)

/-- Windows painted in two parts, where the parts have no element in common. -/
theorem Painted.append {is' : List ι} (h : Painted window len f is xs ys) (h' : Painted window len f is' ys zs)
    (hapart : ∀ i ∈ is, ∀ i' ∈ is', window i + len ≤ window i' ∨ window i' + len ≤ window i) :
    Painted window len f (is ++ is') xs zs where
  length := h'.length.trans h.length
  inside i hi j hj := by
    rcases List.mem_append.mp hi with hi | hi
    · rw [h'.outside _ fun i' hi' hin => ?_, h.inside i hi j hj]
      have := hapart i hi i' hi'
      omega
    · rw [h'.inside i hi j hj, h.outside _ fun i' hi' hin => ?_]
      have := hapart i' hi' i hi
      omega
  outside k hk := by
    rw [h'.outside k fun i hi => hk i (List.mem_append_right is hi)]
    exact h.outside k fun i hi => hk i (List.mem_append_left is' hi)

/-- One window after the other. -/
theorem Painted.cons (hone : Painted window len f [i] xs ys) (hrest : Painted window len f is ys zs)
    (hapart : ∀ i' ∈ is, window i + len ≤ window i' ∨ window i' + len ≤ window i) : Painted window len f
      (i :: is) xs zs :=
  hone.append hrest fun i₁ hi₁ i' hi' => by
    rw [List.mem_singleton.mp hi₁]
    exact hapart i' hi'

/-- A splice paints one window. -/
theorem Painted.splice {new : List α} (hlen : new.length = len) (hfit : window i + len ≤ xs.length)
    (hf : ∀ j < len, ∀ x, new[j]? = some (f i j x)) : Painted window len f [i] xs (splice xs (window i) new) where
  length := length_splice (by omega)
  inside i' hi' j hj := by
    rw [List.mem_singleton.mp hi', getElem?_splice (by omega), if_pos (by omega), Nat.add_sub_cancel_left]
    have hin : window i + j < xs.length := by omega
    rw [List.getElem?_eq_getElem hin, Option.map_some]
    exact hf j hj _
  outside k hk := by
    rw [getElem?_splice (by omega), if_neg]
    rw [hlen]
    exact hk i (List.mem_singleton.mpr rfl)

/-- The change of each element is what counts. -/
theorem Painted.congr (h : Painted window len f is xs ys)
    (hfg : ∀ i ∈ is, ∀ j < len, ∀ x, xs[window i + j]? = some x → f i j x = g i j x) :
      Painted window len g is xs ys where
  length := h.length
  inside i hi j hj := by
    rw [h.inside i hi j hj]
    cases hx : xs[window i + j]? with
    | none => rfl
    | some x => rw [Option.map_some, Option.map_some, hfg i hi j hj x hx]
  outside := h.outside

/-- A painted buffer is determined by its windows and changes. -/
theorem Painted.unique (h : Painted window len f is xs ys) (h' : Painted window len f is xs zs) : ys = zs := by
  refine List.ext_getElem? fun k => ?_
  by_cases hk : ∃ i ∈ is, window i ≤ k ∧ k < window i + len
  · obtain ⟨i, hi, hlow, hhigh⟩ := hk
    have hplace : k = window i + (k - window i) := by omega
    rw [hplace, h.inside i hi _ (by omega), h'.inside i hi _ (by omega)]
  · have hout : ∀ i ∈ is, ¬(window i ≤ k ∧ k < window i + len) := fun i hi hin => hk ⟨i, hi, hin⟩
    rw [h.outside k hout, h'.outside k hout]

/-- Two ways to paint agree when they change each element alike. -/
theorem Painted.agree_iff (h : Painted window len f is xs ys) : Painted window len g is xs ys ↔
    ∀ i ∈ is, ∀ j < len, (xs[window i + j]?).map (f i j) = (xs[window i + j]?).map (g i j) := by
  constructor
  · intro h' i hi j hj
    rw [← h.inside i hi j hj, ← h'.inside i hi j hj]
  · intro hall
    refine ⟨h.length, fun i hi j hj => ?_, h.outside⟩
    rw [h.inside i hi j hj]
    exact hall i hi j hj

end BridgeVm.Lib
