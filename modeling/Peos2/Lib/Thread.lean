/-
  Lib.Thread — doubly linked lists threaded through two arrays.

  `Thread next prev before l after` says that the indices `l` are linked in
  this order: the `prev` of the first is `before`, the `next` of the last is
  `after`, and neighbours point at each other.
-/
import Peos2.Lib.Cyclic

namespace Peos2.Lib

/-- `l` is linked from `before` to `after`. -/
def Thread (next prev : Nat → Nat) : Nat → List Nat → Nat → Prop
  | _, [], _ => True
  | before, i :: l, after =>
    prev i = before ∧ next i = l.headD after ∧ Thread next prev i l after

variable {next prev next' prev' : Nat → Nat}

variable {l l₁ l₂ : List Nat} {before i nil : Nat}

theorem thread_congr :
    ∀ {before after : Nat}, (∀ i ∈ l, next' i = next i) → (∀ i ∈ l, prev' i = prev i) →
      Thread next prev before l after → Thread next' prev' before l after := by
  induction l with
  | nil => intro _ _ _ _ _; trivial
  | cons i l ih =>
    intro before after hn hp h
    obtain ⟨h1, h2, h3⟩ := h
    refine ⟨(hp i (by simp)).trans h1, (hn i (by simp)).trans h2, ih ?_ ?_ h3⟩
    · exact fun j hj => hn j (by simp [hj])
    · exact fun j hj => hp j (by simp [hj])

theorem headD_append (l₁ l₂ : List Nat) (d : Nat) : (l₁ ++ l₂).headD d = l₁.headD (l₂.headD d) := by
  cases l₁ <;> rfl

/-- A thread can be cut at any place. -/
theorem thread_append :
    ∀ {before after : Nat}, Thread next prev before (l₁ ++ l₂) after ↔
      Thread next prev before l₁ (l₂.headD after)
        ∧ Thread next prev (l₁.getLastD before) l₂ after := by
  induction l₁ with
  | nil => intro before after; simp [Thread]
  | cons i l ih =>
    intro before after
    simp only [List.cons_append, Thread, headD_append, ih, List.getLastD_cons, and_assoc]

theorem thread_storeBefore {after : Nat} (before' : Nat) (hi : i ∉ l)
    (h : Thread next prev before (i :: l) after) :
    Thread next (storeAt prev i before') before' (i :: l) after := by
  obtain ⟨_, h2, h3⟩ := h
  refine ⟨storeAt_self prev i before', h2, ?_⟩
  refine thread_congr (fun _ _ => rfl) ?_ h3
  intro j hj
  exact storeAt_ne prev before' (fun hji => hi (hji ▸ hj))

theorem thread_storeAfter {after : Nat} (after' : Nat) (hi : i ∉ l)
    (h : Thread next prev before (l ++ [i]) after) :
    Thread (storeAt next i after') prev before (l ++ [i]) after' := by
  rw [thread_append] at h ⊢
  obtain ⟨h1, h2, _⟩ := h
  refine ⟨?_, h2, storeAt_self next i after', trivial⟩
  refine thread_congr ?_ (fun _ _ => rfl) h1
  intro j hj
  exact storeAt_ne next after' (fun hji => hi (hji ▸ hj))

theorem thread_push (hi : i ∉ l) (hl : l.Nodup) (hprev : prev i = nil)
    (h : Thread next prev nil l nil) (hne : ∀ j l', l = j :: l' → prev' = storeAt prev j i)
    (hemp : l = [] → prev' = prev) :
    Thread (storeAt next i (l.headD nil)) prev' nil (i :: l) nil := by
  cases l with
  | nil =>
    rw [hemp rfl]
    exact ⟨hprev, storeAt_self _ _ _, trivial⟩
  | cons j l =>
    rw [hne j l rfl]
    have hij : i ≠ j := fun hij => hi (by simp [hij])
    refine ⟨?_, storeAt_self _ _ _, ?_⟩
    · rw [storeAt_ne prev i hij]
      exact hprev
    · have hb := thread_storeBefore i (List.nodup_cons.mp hl).1 h
      refine thread_congr ?_ (fun _ _ => rfl) hb
      intro k hk
      exact storeAt_ne next _ (fun hki => hi (hki ▸ hk))

theorem storeAt_eq_self (f : Nat → Nat) {x : Nat} (h : f i = x) : storeAt f i x = f := by
  funext j
  by_cases hj : j = i
  · rw [hj, storeAt_self, h]
  · rw [storeAt_ne f x hj]

theorem thread_enqueue (hi : i ∉ l) (hl : l.Nodup) (h : Thread next prev nil l nil)
    (hne : ∀ j l', l = j :: l' → prev' = storeAt (storeAt prev j i) i nil)
    (hemp : l = [] → prev' = storeAt prev i nil) :
    Thread (storeAt next i (l.headD nil)) prev' nil (i :: l) nil := by
  -- first clear the link of `i`, which the thread does not see
  have hclear : Thread next (storeAt prev i nil) nil l nil := by
    refine thread_congr (fun _ _ => rfl) ?_ h
    intro j hj
    exact storeAt_ne prev nil (fun hji => hi (hji ▸ hj))
  refine thread_push hi hl (storeAt_self prev i nil) hclear ?_ hemp
  intro j l' hcons
  rw [hne j l' hcons]
  have hij : j ≠ i := by
    intro heq
    rw [hcons, heq] at hi
    exact hi List.mem_cons_self
  funext k
  unfold storeAt
  by_cases hki : k = i <;> by_cases hkj : k = j
  · rw [hki] at hkj
    exact absurd hkj.symm hij
  · rw [if_pos hki, if_neg hkj, if_pos hki]
  · rw [if_neg hki, if_pos hkj, if_pos hkj]
  · rw [if_neg hkj, if_neg hkj]

/-- Cutting an index out of a thread. -/
theorem thread_unlink (hnd : (l₁ ++ i :: l₂).Nodup) (h : Thread next prev nil (l₁ ++ i :: l₂) nil)
    (hnext : ∀ l j, l₁ = l ++ [j] → next' = storeAt next j (l₂.headD nil))
    (hnext' : l₁ = [] → next' = next)
    (hprev : ∀ j l, l₂ = j :: l → prev' = storeAt prev j (l₁.getLastD nil))
    (hprev' : l₂ = [] → prev' = prev) : Thread next' prev' nil (l₁ ++ l₂) nil := by
  rw [thread_append] at h
  obtain ⟨h1, _, _, h2⟩ := h
  have hdis := (List.nodup_append.mp hnd).2.2
  have hnd1 := (List.nodup_append.mp hnd).1
  have hnd2 := (List.nodup_cons.mp (List.nodup_append.mp hnd).2.1).2
  -- the front part: only the `next` of its last index moves
  have hfront : Thread next' prev nil l₁ (l₂.headD nil) := by
    rcases List.eq_nil_or_concat l₁ with he | ⟨l, j, he⟩
    · rw [he]
      trivial
    rw [List.concat_eq_append] at he
    rw [hnext l j he, he]
    rw [he] at h1 hnd1
    refine thread_storeAfter _ ?_ h1
    intro hj
    exact (List.nodup_append.mp hnd1).2.2 j hj j (by simp) rfl
  -- the back part: only the `prev` of its first index moves
  have hback : Thread next prev' (l₁.getLastD nil) l₂ nil := by
    cases hl2 : l₂ with
    | nil => trivial
    | cons j l =>
      rw [hprev j l hl2]
      rw [hl2] at h2 hnd2
      exact thread_storeBefore _ (List.nodup_cons.mp hnd2).1 h2
  rw [thread_append]
  constructor
  · refine thread_congr (fun _ _ => rfl) ?_ hfront
    intro k hk
    cases hl2 : l₂ with
    | nil => rw [hprev' hl2]
    | cons j l =>
      rw [hprev j l hl2]
      exact storeAt_ne prev _ (fun hkj => hdis k hk j (by simp [hl2]) hkj)
  · refine thread_congr ?_ (fun _ _ => rfl) hback
    intro k hk
    rcases List.eq_nil_or_concat l₁ with he | ⟨l, j, he⟩
    · rw [hnext' he]
    · rw [List.concat_eq_append] at he
      rw [hnext l j he]
      exact storeAt_ne next _ (fun hkj => hdis j (by simp [he]) k (by simp [hk]) hkj.symm)

theorem next_mem_of_thread (h : Thread next prev before (l₁ ++ i :: l₂) nil) :
    next i = l₂.headD nil :=
  (thread_append.mp h).2.2.1

theorem prev_mem_of_thread (h : Thread next prev before (l₁ ++ i :: l₂) nil) :
    prev i = l₁.getLastD before :=
  (thread_append.mp h).2.1

end Peos2.Lib
