import Mathlib.Data.List.Nodup
import Mathlib.Logic.Function.Basic

/-!
# Tables of hash chains

A hash table is a function from buckets to chains. What makes it a table is
`Filed`: the chain of a bucket holds exactly the live entries whose key is that
bucket, each of them once. An entry comes in at the head of its chain, goes out
of whatever chain it is in, and is filed again when its key changes; bringing an
entry that was found to the head of its chain is filing it again under the key
it has.

A walk along a chain goes from an entry to the one behind it, which it reads
only when it is done with the entry; `after` is the rest of the walk, as the
chain is then.
-/

namespace VxWorks.Lib

variable {κ α : Type*}

structure Filed (h : κ → List α) (key : α → κ) (live : α → Prop) : Prop where
  nodup : ∀ b, (h b).Nodup
  mem : ∀ b x, x ∈ h b ↔ live x ∧ key x = b

/-- `LIST_INSERT_HEAD` on the chain of a bucket. -/
def chainInsert [DecidableEq κ] (h : κ → List α) (b : κ) (x : α) : κ → List α :=
  Function.update h b (x :: h b)

/-- `LIST_REMOVE`, which needs no bucket: the entry knows its neighbours. -/
def chainRemove [DecidableEq α] (h : κ → List α) (x : α) : κ → List α :=
  fun b => (h b).erase x

/-- The chain behind an entry. -/
def after [DecidableEq α] (l : List α) (x : α) : List α := (l.dropWhile (· ≠ x)).tail

theorem after_head [DecidableEq α] (l : List α) (x : α) : after (x :: l) x = l := by
  simp [after]

theorem after_suffix [DecidableEq α] {l r : List α} {x : α} (hl : l.Nodup) (h : x :: r <:+ l) :
    after l x = r := by
  obtain ⟨d, rfl⟩ := h
  have hd : ∀ y ∈ d, decide (y ≠ x) = true := by
    intro y hy
    simp only [decide_eq_true_eq]
    rintro rfl
    exact (List.nodup_append.mp hl).2.2 y hy y List.mem_cons_self rfl
  rw [after]
  rw [List.dropWhile_append_of_pos hd, List.dropWhile_cons_of_neg (by simp), List.tail_cons]

section

variable {h h' : κ → List α} {key key' : α → κ} {live live' : α → Prop} {x : α}

theorem filed_empty (key : α → κ) : Filed (fun _ => []) key (fun _ => False) :=
  ⟨fun _ => List.nodup_nil, fun b x => by simp⟩

theorem Filed.congr (hf : Filed h key live) (hlive : ∀ y, live' y ↔ live y)
    (hkey : ∀ y, live y → key' y = key y) : Filed h key' live' := by
  refine ⟨hf.nodup, ?_⟩
  intro b y
  rw [hf.mem, hlive]
  constructor
  · intro hy
    exact ⟨hy.1, (hkey y hy.1).trans hy.2⟩
  · intro hy
    exact ⟨hy.1, (hkey y hy.1).symm.trans hy.2⟩

theorem Filed.count [DecidableEq κ] [DecidableEq α] (hf : Filed h key live) (hx : live x) (b : κ) :
    (h b).count x = if b = key x then 1 else 0 := by
  split
  · next heq => exact List.count_eq_one_of_mem (hf.nodup b) ((hf.mem b x).mpr ⟨hx, heq.symm⟩)
  · next hne =>
      refine List.count_eq_zero_of_not_mem fun hmem => hne ?_
      exact ((hf.mem b x).mp hmem).2.symm

end

section

variable {h : κ → List α} {key key' : α → κ} {live live' : α → Prop} {x : α}

/-- A new entry. -/
theorem Filed.insert [DecidableEq κ] (hf : Filed h key live) (hx : ¬ live x)
    (hkey : ∀ y, y ≠ x → key' y = key y) (hlive : ∀ y, live' y ↔ y = x ∨ live y) :
    Filed (chainInsert h (key' x) x) key' live' := by
  have hout : ∀ b, x ∉ h b := fun b hmem => hx ((hf.mem b x).mp hmem).1
  constructor
  · intro b
    rw [chainInsert]
    rcases eq_or_ne b (key' x) with rfl | hb
    · rw [Function.update_self]
      exact List.nodup_cons.mpr ⟨hout _, hf.nodup _⟩
    · rw [Function.update_of_ne hb]
      exact hf.nodup b
  · intro b y
    have hold : y ≠ x → (y ∈ h b ↔ live' y ∧ key' y = b) := by
      intro hy
      rw [hf.mem, hlive, hkey y hy, or_iff_right hy]
    rw [chainInsert]
    rcases eq_or_ne b (key' x) with rfl | hb
    · rw [Function.update_self, List.mem_cons]
      rcases eq_or_ne y x with rfl | hy
      · simp [hlive]
      · rw [or_iff_right hy, hold hy]
    · rw [Function.update_of_ne hb]
      rcases eq_or_ne y x with rfl | hy
      · simp [hout b, Ne.symm hb]
      · exact hold hy

/-- An entry goes. -/
theorem Filed.remove [DecidableEq α] (hf : Filed h key live) (x : α) :
    Filed (chainRemove h x) key (fun y => live y ∧ y ≠ x) := by
  refine ⟨fun b => (hf.nodup b).erase x, ?_⟩
  intro b y
  rw [chainRemove]
  rw [(hf.nodup b).mem_erase_iff, hf.mem]
  tauto

/-- An entry that is there already, under the key it has now. -/
theorem Filed.refile [DecidableEq κ] [DecidableEq α] (hf : Filed h key live) (hx : live x)
    (hkey : ∀ y, y ≠ x → key' y = key y) :
    Filed (chainInsert (chainRemove h x) (key' x) x) key' live := by
  refine (hf.remove x).insert (fun h => h.2 rfl) hkey ?_
  intro y
  rcases eq_or_ne y x with rfl | hy
  · simp [hx]
  · simp [hy]

/-- Bringing an entry to the head of its own chain. -/
theorem Filed.toFront [DecidableEq κ] [DecidableEq α] (hf : Filed h key live) {b : κ}
    (hx : x ∈ h b) :
    Filed (chainInsert (chainRemove h x) b x) key live := by
  obtain ⟨hlive, rfl⟩ := (hf.mem b x).mp hx
  exact hf.refile hlive fun _ _ => rfl

/-- What came in and goes out again leaves no trace. -/
theorem chainRemove_insert [DecidableEq κ] [DecidableEq α] (hx : ∀ b, x ∉ h b) (b : κ) :
    chainRemove (chainInsert h b x) x = h := by
  funext c
  rw [chainRemove, chainInsert]
  rcases eq_or_ne c b with rfl | hc
  · rw [Function.update_self, List.erase_cons_head]
  · rw [Function.update_of_ne hc, List.erase_of_not_mem (hx c)]

/-- For the entry at the head that is no change. -/
theorem toFront_head [DecidableEq κ] [DecidableEq α] (hf : Filed h key live) {b : κ}
    (hx : (h b).head? = some x) : chainInsert (chainRemove h x) b x = h := by
  obtain ⟨l, hl⟩ : ∃ l, h b = x :: l := by
    cases hb : h b with
    | nil => exact absurd hx (by simp [hb])
    | cons y l =>
        obtain rfl : y = x := by simpa [hb] using hx
        exact ⟨l, rfl⟩
  have hkey : key x = b := ((hf.mem b x).mp (by simp [hl])).2
  funext c
  rw [chainInsert, chainRemove]
  rcases eq_or_ne c b with rfl | hc
  · rw [Function.update_self, hl, List.erase_cons_head]
  · rw [Function.update_of_ne hc]
    refine List.erase_of_not_mem fun hmem => hc ?_
    exact ((hf.mem c x).mp hmem).2.symm.trans hkey

end

end VxWorks.Lib
