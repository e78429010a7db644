import VxWorks.Lib.Buffer

/-!
# Programs that keep account of what they touch

A program on memory whose run leaves, beside its value and the memory, a list of
the octets it read and wrote. The program is put together from readers and
writers of one octet, of a word and of a row of octets, so the account cannot be
wrong: what is not asked of a reader is not known.

`Stays` says that a run touches nothing but what it may. It is an equivalence at
each step, so that a program is shown to stay, or not to stay, where it belongs
by walking down its text once.
-/

namespace VxWorks.Lib

/-- An octet was read, or written. -/
inductive Touch where
  | read (a : Nat)
  | write (a : Nat)
deriving DecidableEq, Repr

/-- The first `n` octets. -/
def Touch.below (n : Nat) : Touch → Prop
  | read a => a < n
  | write a => a < n

instance (n : Nat) (t : Touch) : Decidable (t.below n) :=
  match t with
  | .read a => inferInstanceAs (Decidable (a < n))
  | .write a => inferInstanceAs (Decidable (a < n))

@[simp] theorem Touch.below_read (n a : Nat) : (read a).below n ↔ a < n := Iff.rfl

@[simp] theorem Touch.below_write (n a : Nat) : (write a).below n ↔ a < n := Iff.rfl

structure Outcome (α : Type) where
  val : α
  buf : Buf
  log : List Touch

structure Traced (α : Type) where
  run : Buf → Outcome α

namespace Traced

instance : Monad Traced where
  pure a := ⟨fun b => ⟨a, b, []⟩⟩
  bind p f := ⟨fun b =>
    let o := p.run b
    let o' := (f o.val).run o.buf
    ⟨o'.val, o'.buf, o.log ++ o'.log⟩⟩

def rd8 (a : Nat) : Traced UInt8 := ⟨fun b => ⟨b a, b, [.read a]⟩⟩

def rd16 (a : Nat) : Traced UInt16 := do
  let b1 ← rd8 a
  let b0 ← rd8 (a + 1)
  pure (get16 b1 b0)

def rd32 (a : Nat) : Traced UInt32 :=
  ⟨fun b => ⟨b.u32 a, b, [.read a, .read (a + 1), .read (a + 2), .read (a + 3)]⟩⟩

def rdSlice (a n : Nat) : Traced (List UInt8) :=
  ⟨fun b => ⟨b.slice a n, b, (List.range n).map fun i => .read (a + i)⟩⟩

def wr8 (a : Nat) (v : UInt8) : Traced Unit := ⟨fun b => ⟨(), b.set8 a v, [.write a]⟩⟩

def wr32 (a : Nat) (v : UInt32) : Traced Unit :=
  ⟨fun b => ⟨(), b.set32 a v, [.write a, .write (a + 1), .write (a + 2), .write (a + 3)]⟩⟩

def wrSlice (a : Nat) (l : List UInt8) : Traced Unit :=
  ⟨fun b => ⟨(), b.putAt a l, (List.range l.length).map fun i => .write (a + i)⟩⟩

variable {α β : Type} {ok : Touch → Prop} {b : Buf}

/-! ## Values and memory -/

@[simp] theorem pure_val (x : α) : ((pure x : Traced α).run b).val = x := rfl

@[simp] theorem pure_buf (x : α) : ((pure x : Traced α).run b).buf = b := rfl

@[simp] theorem bind_val (p : Traced α) (f : α → Traced β) :
    ((p >>= f).run b).val = ((f (p.run b).val).run (p.run b).buf).val := rfl

@[simp] theorem bind_buf (p : Traced α) (f : α → Traced β) :
    ((p >>= f).run b).buf = ((f (p.run b).val).run (p.run b).buf).buf := rfl

@[simp] theorem rd8_val (a : Nat) : ((rd8 a).run b).val = b a := rfl

@[simp] theorem rd8_buf (a : Nat) : ((rd8 a).run b).buf = b := rfl

@[simp] theorem rd16_val (a : Nat) : ((rd16 a).run b).val = b.u16 a := rfl

@[simp] theorem rd16_buf (a : Nat) : ((rd16 a).run b).buf = b := rfl

@[simp] theorem rd32_val (a : Nat) : ((rd32 a).run b).val = b.u32 a := rfl

@[simp] theorem rd32_buf (a : Nat) : ((rd32 a).run b).buf = b := rfl

@[simp] theorem rdSlice_val (a n : Nat) : ((rdSlice a n).run b).val = b.slice a n := rfl

@[simp] theorem rdSlice_buf (a n : Nat) : ((rdSlice a n).run b).buf = b := rfl

@[simp] theorem wr8_buf (a : Nat) (v : UInt8) : ((wr8 a v).run b).buf = b.set8 a v := rfl

@[simp] theorem wr32_buf (a : Nat) (v : UInt32) : ((wr32 a v).run b).buf = b.set32 a v := rfl

@[simp] theorem wrSlice_buf (a : Nat) (l : List UInt8) :
    ((wrSlice a l).run b).buf = b.putAt a l := rfl

theorem pure_run (x : α) : (pure x : Traced α).run b = ⟨x, b, []⟩ := rfl

theorem rd8_run (a : Nat) : (rd8 a).run b = ⟨b a, b, [.read a]⟩ := rfl

theorem bind_run (p : Traced α) (f : α → Traced β) :
    (p >>= f).run b = ⟨((f (p.run b).val).run (p.run b).buf).val,
      ((f (p.run b).val).run (p.run b).buf).buf,
      (p.run b).log ++ ((f (p.run b).val).run (p.run b).buf).log⟩ := rfl

/-! ## What is touched -/

/-- The run from `b` touches only what it may. -/
def Stays (ok : Touch → Prop) (p : Traced α) (b : Buf) : Prop := ∀ t ∈ (p.run b).log, ok t

@[simp] theorem stays_pure (x : α) : Stays ok (pure x) b ↔ True :=
  iff_true_intro fun _ ht => absurd ht List.not_mem_nil

@[simp] theorem stays_bind (p : Traced α) (f : α → Traced β) :
    Stays ok (p >>= f) b ↔ Stays ok p b ∧ Stays ok (f (p.run b).val) (p.run b).buf :=
  List.forall_mem_append

@[simp] theorem stays_rd8 (a : Nat) : Stays ok (rd8 a) b ↔ ok (.read a) := by
  simp [Stays, rd8]

@[simp] theorem stays_rd16 (a : Nat) :
    Stays ok (rd16 a) b ↔ ok (.read a) ∧ ok (.read (a + 1)) := by
  simp only [rd16, stays_bind, stays_rd8, stays_pure, and_true, rd8_buf]

theorem forall_four {p : Nat → Prop} {a : Nat} :
    (p a ∧ p (a + 1) ∧ p (a + 2) ∧ p (a + 3)) ↔ ∀ i, i < 4 → p (a + i) := by
  constructor
  · rintro ⟨h0, h1, h2, h3⟩ i hi
    match i, hi with
    | 0, _ => exact h0
    | 1, _ => exact h1
    | 2, _ => exact h2
    | 3, _ => exact h3
  · intro h
    exact ⟨h 0 (by omega), h 1 (by omega), h 2 (by omega), h 3 (by omega)⟩

@[simp] theorem stays_rd32 (a : Nat) :
    Stays ok (rd32 a) b ↔ ∀ i, i < 4 → ok (.read (a + i)) := by
  rw [← forall_four (p := fun i => ok (.read i))]
  simp [Stays, rd32]

@[simp] theorem stays_rdSlice (a n : Nat) :
    Stays ok (rdSlice a n) b ↔ ∀ i, i < n → ok (.read (a + i)) := by
  simp [Stays, rdSlice]

@[simp] theorem stays_wr8 (a : Nat) (v : UInt8) : Stays ok (wr8 a v) b ↔ ok (.write a) := by
  simp [Stays, wr8]

@[simp] theorem stays_wr32 (a : Nat) (v : UInt32) :
    Stays ok (wr32 a v) b ↔ ∀ i, i < 4 → ok (.write (a + i)) := by
  rw [← forall_four (p := fun i => ok (.write i))]
  simp [Stays, wr32]

@[simp] theorem stays_wrSlice (a : Nat) (l : List UInt8) :
    Stays ok (wrSlice a l) b ↔ ∀ i, i < l.length → ok (.write (a + i)) := by
  simp [Stays, wrSlice]

end Traced

end VxWorks.Lib
