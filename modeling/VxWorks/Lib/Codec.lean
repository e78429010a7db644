import VxWorks.Lib.Octets

/-!
# Fields that can be written and read back

A packet format made of fields in a fixed order is a row of codecs. A codec
writes a value as octets and reads one off the front of a string, and it carries
the two facts that make it one: what was written is read back, and what is read
was written, so that reading is not more liberal than writing. Fields are put
together with `pair`, and `tagged` is the type, length, value shape: the value is
read only behind its own tag and its own length.
-/

namespace VxWorks.Lib

structure Codec (α : Type*) where
  put : α → List UInt8
  get : List UInt8 → Option (α × List UInt8)
  get_put : ∀ v rest, get (put v ++ rest) = some (v, rest)
  put_get : ∀ {p v rest}, get p = some (v, rest) → p = put v ++ rest

namespace Codec

variable {α β : Type*}

theorem put_injective (c : Codec α) : Function.Injective c.put := by
  intro v w h
  have hget := c.get_put v []
  rw [h, c.get_put] at hget
  simpa using hget.symm

/-- No octets at all. -/
def void : Codec Unit where
  put _ := []
  get p := some ((), p)
  get_put _ _ := rfl
  put_get h := by simpa using h

def octet : Codec UInt8 where
  put v := [v]
  get
    | b :: rest => some (b, rest)
    | [] => none
  get_put _ _ := rfl
  put_get {p v rest} h := by
    cases p with
    | nil => simp at h
    | cons b p =>
        obtain ⟨rfl, rfl⟩ : b = v ∧ p = rest := by simpa using h
        rfl

/-- Two octets in network order. -/
def short : Codec UInt16 where
  put := put16
  get
    | b1 :: b0 :: rest => some (get16 b1 b0, rest)
    | _ => none
  get_put v rest := by
    show some (get16 _ _, rest) = _
    rw [get16_put16]
  put_get {p v rest} h := by
    match p with
    | [] | [_] => simp at h
    | b1 :: b0 :: p =>
        obtain ⟨rfl, rfl⟩ : get16 b1 b0 = v ∧ p = rest := by simpa using h
        rw [put16_get16]
        rfl

/-- Four octets in network order. -/
def long : Codec UInt32 where
  put := put32
  get
    | b3 :: b2 :: b1 :: b0 :: rest => some (get32 b3 b2 b1 b0, rest)
    | _ => none
  get_put v rest := by
    show some (get32 _ _ _ _, rest) = _
    rw [get32_put32]
  put_get {p v rest} h := by
    match p with
    | [] | [_] | [_, _] | [_, _, _] => simp at h
    | b3 :: b2 :: b1 :: b0 :: p =>
        obtain ⟨rfl, rfl⟩ : get32 b3 b2 b1 b0 = v ∧ p = rest := by simpa using h
        rw [put32_get32]
        rfl

/-- One field behind another. -/
def pair (c : Codec α) (d : Codec β) : Codec (α × β) where
  put v := c.put v.1 ++ d.put v.2
  get p :=
    match c.get p with
    | some (a, p) =>
        match d.get p with
        | some (b, p) => some ((a, b), p)
        | none => none
    | none => none
  get_put v rest := by simp only [List.append_assoc, c.get_put, d.get_put]
  put_get {p v rest} h := by
    cases hc : c.get p with
    | none => simp [hc] at h
    | some r =>
        obtain ⟨a, q⟩ := r
        cases hd : d.get q with
        | none => simp [hc, hd] at h
        | some t =>
            obtain ⟨b, q'⟩ := t
            obtain ⟨rfl, rfl⟩ : (a, b) = v ∧ q' = rest := by simpa [hc, hd] using h
            rw [c.put_get hc, d.put_get hd, List.append_assoc]

/-- A field behind its tag and its length. -/
def tagged (tag len : UInt8) (c : Codec α) : Codec α where
  put v := tag :: len :: c.put v
  get
    | t :: l :: p => if l = len ∧ t = tag then c.get p else none
    | _ => none
  get_put v rest := by simp [c.get_put]
  put_get {p v rest} h := by
    match p with
    | [] | [_] => simp at h
    | t :: l :: p =>
        by_cases ht : l = len ∧ t = tag
        · simp only [if_pos ht] at h
          obtain ⟨rfl, rfl⟩ := ht
          rw [c.put_get h]
          rfl
        · simp [if_neg ht] at h

/-! Fields of a fixed size. -/

/-- A field of `n` octets, which is read whatever they are. -/
def Takes (c : Codec α) (n : Nat) : Prop :=
  ∀ p, if n ≤ p.length then ∃ v, c.get p = some (v, p.drop n) else c.get p = none

theorem takes_void : void.Takes 0 := fun _ => ⟨(), rfl⟩

theorem takes_octet : octet.Takes 1
  | [] => rfl
  | b :: _ => ⟨b, rfl⟩

theorem takes_short : short.Takes 2
  | [] | [_] => rfl
  | b1 :: b0 :: _ => ⟨get16 b1 b0, rfl⟩

theorem takes_long : long.Takes 4
  | [] | [_] | [_, _] | [_, _, _] => rfl
  | b3 :: b2 :: b1 :: b0 :: _ => ⟨get32 b3 b2 b1 b0, rfl⟩

theorem Takes.pair {c : Codec α} {d : Codec β} {n m : Nat} (hc : c.Takes n) (hd : d.Takes m) :
    (c.pair d).Takes (n + m) := by
  intro p
  have hcp := hc p
  have hdp := hd (p.drop n)
  rw [List.length_drop, List.drop_drop] at hdp
  split_ifs at hcp with hn
  · obtain ⟨v, hv⟩ := hcp
    by_cases hm : m ≤ p.length - n
    · rw [if_pos hm] at hdp
      obtain ⟨w, hw⟩ := hdp
      rw [if_pos (by omega)]
      exact ⟨(v, w), by simp only [Codec.pair, hv, hw]⟩
    · rw [if_neg hm] at hdp
      rw [if_neg (by omega)]
      simp only [Codec.pair, hv, hdp]
  · rw [if_neg (by omega)]
    simp only [Codec.pair, hcp]

end Codec

end VxWorks.Lib
