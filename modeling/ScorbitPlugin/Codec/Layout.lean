import Mathlib.Data.List.Basic
import Mathlib.Tactic.Ring

set_option relaxedAutoImplicit false
set_option autoImplicit false

/-!
# Byte layouts

A *layout* of a type says which values it can carry, which bytes each of them is written as,
and how a value is read back off the front of a byte string. It carries the proofs of its two
laws: what was written is read back, with whatever follows it left over, and only what would be
written is read. Layouts compose, and every compound layout gets its laws from its parts.

## Main definitions

* `Layout` — a layout with its two laws.
* `Layout.u8`, `Layout.le`, `Layout.raw`, `Layout.const` — the primitive layouts.
* `Layout.map`, `Layout.bind`, `Layout.pair`, `Layout.dep`, `Layout.vec`, `Layout.filter` — the
  combinators.
* `Layout.counted`, `Layout.countedBytes` — a count followed by that many elements or bytes.

## Main results

* `Layout.get_append` — bytes appended to a string that is read do not change the value.
* `Layout.get_of_prefix` — no proper prefix of a written value is read.
* `Layout.put_injective` — different values are written differently.
-/

namespace Codec

/-- A byte string. -/
abbrev Bytes := List UInt8

/-- A layout of `α`: the values it carries, what they are written as, and how they are read
back off the front of a byte string. -/
structure Layout (α : Type) where
  /-- The values the layout can carry. -/
  valid : α → Prop
  /-- The bytes a value is written as. -/
  put : α → Bytes
  /-- The value at the front of a byte string, and what follows it. -/
  get : Bytes → Option (α × Bytes)
  /-- What was written is read back, and what follows is left over. -/
  get_put : ∀ v t, valid v → get (put v ++ t) = some (v, t)
  /-- Only what would be written is read. -/
  put_get : ∀ b v t, get b = some (v, t) → valid v ∧ b = put v ++ t

namespace Layout

variable {α β κ : Type}

/-! ## Laws of every layout -/

/-- A valid value is read back off exactly its own bytes. -/
theorem get_put_self (L : Layout α) {v : α} (h : L.valid v) : L.get (L.put v) = some (v, []) := by
  simpa using L.get_put v [] h

/-- Bytes appended to a string that is read stay behind the value. -/
theorem get_append (L : Layout α) {b t : Bytes} {v : α} (h : L.get b = some (v, t)) (u : Bytes) :
    L.get (b ++ u) = some (v, t ++ u) := by
  obtain ⟨hv, rfl⟩ := L.put_get b v t h
  rw [List.append_assoc, L.get_put v (t ++ u) hv]

/-- **No proper prefix of a written value is read.**

**Proof sketch.** A prefix that is read is the bytes of some value `w` and a rest. Appending
what is missing reads `w` off the whole string, so `w` is the value written and the rest is
empty: nothing was missing. -/
theorem get_of_prefix (L : Layout α) {v : α} (hv : L.valid v) {q r : Bytes}
    (hq : L.put v = q ++ r) (hr : r ≠ []) : L.get q = none := by
  rcases hg : L.get q with _ | ⟨w, t⟩
  · rfl
  · have hw := L.get_append hg r
    rw [← hq, L.get_put_self hv] at hw
    obtain ⟨-, hnil⟩ := Prod.mk.inj (Option.some.inj hw)
    exact absurd (List.append_eq_nil_iff.mp hnil.symm).2 hr

/-- Two valid values written alike are equal. -/
theorem put_injective (L : Layout α) {v w : α} (hv : L.valid v) (hw : L.valid w)
    (h : L.put v = L.put w) : v = w := by
  have h1 := L.get_put_self hv
  rw [h, L.get_put_self hw] at h1
  exact (Prod.mk.inj (Option.some.inj h1)).1.symm

/-- What is left over is shorter than the input by the bytes of the value read. -/
theorem length_of_get (L : Layout α) {b t : Bytes} {v : α} (h : L.get b = some (v, t)) :
    b.length = (L.put v).length + t.length := by
  obtain ⟨-, rfl⟩ := L.put_get b v t h
  exact List.length_append

/-! ## Primitive layouts -/

/-- One byte. -/
def u8 : Layout UInt8 where
  valid _ := True
  put v := [v]
  get
    | [] => none
    | v :: t => some (v, t)
  get_put _ _ _ := rfl
  put_get
    | [], _, _, h => by simp at h
    | a :: b, v, t, h => by
      obtain ⟨rfl, rfl⟩ := Prod.mk.inj (Option.some.inj h)
      exact ⟨trivial, rfl⟩

/-- The `k` low bytes of `v`, least significant first. -/
def putLE : ℕ → ℕ → Bytes
  | 0, _ => []
  | k + 1, v => UInt8.ofNat (v % 256) :: putLE k (v / 256)

/-- The little-endian number in the first `k` bytes. -/
def getLE : ℕ → Bytes → Option (ℕ × Bytes)
  | 0, b => some (0, b)
  | _ + 1, [] => none
  | k + 1, x :: b => (getLE k b).map fun p => (x.toNat + 256 * p.1, p.2)

/-- `putLE k` writes `k` bytes. -/
@[simp] theorem length_putLE : ∀ k v, (putLE k v).length = k
  | 0, _ => rfl
  | k + 1, v => by simp [putLE, length_putLE k]

/-- A number below `256 ^ k` is read back off its `k` bytes. -/
theorem getLE_putLE (t : Bytes) : ∀ k v, v < 256 ^ k → getLE k (putLE k v ++ t) = some (v, t)
  | 0, v, h => by simp only [pow_zero, Nat.lt_one_iff] at h; simp [getLE, putLE, h]
  | k + 1, v, h => by
    have hv : v / 256 < 256 ^ k := Nat.div_lt_of_lt_mul (by rw [← pow_succ']; exact h)
    simp only [putLE, List.cons_append, getLE, getLE_putLE t k _ hv, Option.map_some,
      UInt8.toNat_ofNat']
    congr 2
    omega

/-- What `getLE` reads is below `256 ^ k` and was written by `putLE`.

**Proof sketch.** By recursion on the number of bytes: the first byte is the remainder by 256, and
the rest the quotient. -/
theorem putLE_getLE : ∀ (k : ℕ) (b : Bytes) (v : ℕ) (t : Bytes), getLE k b = some (v, t) →
    v < 256 ^ k ∧ b = putLE k v ++ t
  | 0, b, v, t, h => by
    simp only [getLE, Option.some.injEq, Prod.mk.injEq] at h
    obtain ⟨rfl, rfl⟩ := h
    simp [putLE]
  | k + 1, [], v, t, h => by simp [getLE] at h
  | k + 1, x :: b, v, t, h => by
    simp only [getLE, Option.map_eq_some_iff, Prod.mk.injEq, Prod.exists] at h
    obtain ⟨w, u, hw, rfl, rfl⟩ := h
    obtain ⟨hlt, rfl⟩ := putLE_getLE k b w u hw
    have hx : x.toNat < 256 := x.toNat_lt
    have hmod : (x.toNat + 256 * w) % 256 = x.toNat := by omega
    have hdiv : (x.toNat + 256 * w) / 256 = w := by omega
    refine ⟨by rw [pow_succ']; omega, ?_⟩
    rw [putLE, hmod, hdiv]
    simp

/-- Only the `k` low bytes count. -/
theorem putLE_mod : ∀ k v, putLE k (v % 256 ^ k) = putLE k v
  | 0, _ => rfl
  | k + 1, v => by
    have hlow : v % 256 ^ (k + 1) % 256 = v % 256 := by
      rw [pow_succ']; exact Nat.mod_mul_right_mod v 256 (256 ^ k)
    have hhigh : v % 256 ^ (k + 1) / 256 = v / 256 % 256 ^ k := by
      rw [pow_succ']; exact Nat.mod_mul_right_div_self v 256 (256 ^ k)
    rw [putLE, hlow, hhigh, putLE_mod k, ← putLE]

/-- A `k`-byte little-endian number. -/
def le (k : ℕ) : Layout ℕ where
  valid v := v < 256 ^ k
  put := putLE k
  get := getLE k
  get_put v t := getLE_putLE t k v
  put_get := putLE_getLE k

/-- `n` bytes, as they stand. -/
def raw (n : ℕ) : Layout Bytes where
  valid v := v.length = n
  put v := v
  get b := if n ≤ b.length then some (b.take n, b.drop n) else none
  get_put v t h := by subst h; simp
  put_get b v t h := by
    split_ifs at h with hn
    obtain ⟨rfl, rfl⟩ := Prod.mk.inj (Option.some.inj h)
    exact ⟨List.length_take_of_le hn, (List.take_append_drop n b).symm⟩

/-- A fixed value, written as nothing. -/
def const (a : α) : Layout α where
  valid v := v = a
  put _ := []
  get b := some (a, b)
  get_put v t h := by subst h; rfl
  put_get b v t h := by
    obtain ⟨rfl, rfl⟩ := Prod.mk.inj (Option.some.inj h)
    exact ⟨rfl, rfl⟩

/-! ## Combinators -/

/-- The layout `L` carrying `f a` for each `a`, with `g` taking `f a` back to `a`. The values
carried are those that `f` makes. -/
def map (L : Layout α) (f : α → β) (g : β → α) (hgf : ∀ a, L.valid a → g (f a) = a) :
    Layout β where
  valid v := L.valid (g v) ∧ f (g v) = v
  put v := L.put (g v)
  get b := (L.get b).map fun p => (f p.1, p.2)
  get_put v t h := by rw [L.get_put _ _ h.1, Option.map_some, h.2]
  put_get b v t h := by
    simp only [Option.map_eq_some_iff, Prod.mk.injEq, Prod.exists] at h
    obtain ⟨a, u, ha, rfl, rfl⟩ := h
    obtain ⟨hv, hb⟩ := L.put_get b a u ha
    rw [hgf a hv]
    exact ⟨⟨hv, rfl⟩, hb⟩

/-- A key, then the layout the key selects. The value carries its key: whatever the layout for
`k` carries has key `k`. -/
def dep (L : Layout κ) (key : β → κ) (M : κ → Layout β)
    (hkey : ∀ k v, (M k).valid v → key v = k) : Layout β where
  valid v := L.valid (key v) ∧ (M (key v)).valid v
  put v := L.put (key v) ++ (M (key v)).put v
  get b := (L.get b).bind fun p => (M p.1).get p.2
  get_put v t h := by
    rw [List.append_assoc, L.get_put _ _ h.1, Option.bind_some, (M (key v)).get_put _ _ h.2]
  put_get b v t h := by
    simp only [Option.bind_eq_some_iff, Prod.exists] at h
    obtain ⟨k, u, hk, hv⟩ := h
    obtain ⟨hvk, rfl⟩ := L.put_get b k u hk
    obtain ⟨hvv, rfl⟩ := (M k).put_get u v t hv
    rw [hkey k v hvv]
    exact ⟨⟨hvk, hvv⟩, (List.append_assoc ..).symm⟩

/-- A value, then the layout it selects. -/
def bind (L : Layout κ) (M : κ → Layout β) : Layout (κ × β) where
  valid v := L.valid v.1 ∧ (M v.1).valid v.2
  put v := L.put v.1 ++ (M v.1).put v.2
  get b := (L.get b).bind fun p => ((M p.1).get p.2).map fun q => ((p.1, q.1), q.2)
  get_put v t h := by
    rw [List.append_assoc, L.get_put _ _ h.1, Option.bind_some, (M v.1).get_put _ _ h.2,
      Option.map_some]
  put_get b v t h := by
    simp only [Option.bind_eq_some_iff, Option.map_eq_some_iff, Prod.mk.injEq, Prod.exists] at h
    obtain ⟨a, u, ha, c, w, hc, rfl, rfl⟩ := h
    obtain ⟨hva, rfl⟩ := L.put_get b a u ha
    obtain ⟨hvc, rfl⟩ := (M a).put_get u c w hc
    exact ⟨⟨hva, hvc⟩, (List.append_assoc ..).symm⟩

/-- One layout after another. -/
def pair (L : Layout α) (M : Layout β) : Layout (α × β) := L.bind fun _ => M

/-- The layout of nothing. -/
def empty : Layout α where
  valid _ := False
  put _ := []
  get _ := none
  get_put _ _ h := h.elim
  put_get _ _ _ h := by simp at h

/-- `n` values read one after another. -/
def getVec (L : Layout α) : ℕ → Bytes → Option (List α × Bytes)
  | 0, b => some ([], b)
  | n + 1, b => (L.get b).bind fun p => (getVec L n p.2).map fun q => (p.1 :: q.1, q.2)

/-- A list of valid values is read back off its bytes. -/
theorem getVec_put (L : Layout α) (t : Bytes) : ∀ l : List α, (∀ a ∈ l, L.valid a) →
    getVec L l.length (l.flatMap L.put ++ t) = some (l, t)
  | [], _ => rfl
  | a :: l, h => by
    have ih := getVec_put L t l fun b hb => h b (List.mem_cons_of_mem _ hb)
    rw [List.flatMap_cons, List.append_assoc, List.length_cons, getVec,
      L.get_put _ _ (h a List.mem_cons_self), Option.bind_some, ih, Option.map_some]

/-- What `getVec` reads is that many valid values, and their bytes.

**Proof sketch.** By recursion on the number of values: the first is read by the layout, and the
others behind it. -/
theorem put_getVec (L : Layout α) : ∀ (n : ℕ) (b : Bytes) (l : List α) (t : Bytes),
    getVec L n b = some (l, t) →
      (l.length = n ∧ ∀ a ∈ l, L.valid a) ∧ b = l.flatMap L.put ++ t
  | 0, b, l, t, h => by
    simp only [getVec, Option.some.injEq, Prod.mk.injEq] at h
    obtain ⟨rfl, rfl⟩ := h
    simp
  | n + 1, b, l, t, h => by
    simp only [getVec, Option.bind_eq_some_iff, Option.map_eq_some_iff, Prod.mk.injEq,
      Prod.exists] at h
    obtain ⟨a, u, ha, l', w, hl, rfl, rfl⟩ := h
    obtain ⟨hva, rfl⟩ := L.put_get b a u ha
    obtain ⟨⟨hlen, hall⟩, rfl⟩ := put_getVec L n u l' w hl
    refine ⟨⟨by simp [hlen], ?_⟩, by simp⟩
    rintro x (_ | ⟨_, hx⟩)
    · exact hva
    · exact hall x hx

/-- `n` values, one after another. -/
def vec (L : Layout α) (n : ℕ) : Layout (List α) where
  valid l := l.length = n ∧ ∀ a ∈ l, L.valid a
  put l := l.flatMap L.put
  get := getVec L n
  get_put l t h := by obtain ⟨rfl, hl⟩ := h; exact getVec_put L t l hl
  put_get := put_getVec L n

/-- The values of `L` that pass a check. -/
def filter (L : Layout α) (p : α → Bool) : Layout α where
  valid v := L.valid v ∧ p v = true
  put := L.put
  get b := (L.get b).filter fun q => p q.1
  get_put v t h := by simp [L.get_put v t h.1, h.2]
  put_get b v t h := by
    obtain ⟨hg, hp⟩ := Option.filter_eq_some_iff.mp h
    obtain ⟨hv, hb⟩ := L.put_get b v t hg
    exact ⟨⟨hv, hp⟩, hb⟩

/-- Reads a value of `L` and goes on with `h`. -/
def andThen (L : Layout α) (h : α → Bytes → Option (β × Bytes)) (b : Bytes) : Option (β × Bytes) :=
  (L.get b).bind fun p => h p.1 p.2

/-- A mapped layout reads the value and maps it. -/
theorem get_map (L : Layout α) (f : α → β) (g : β → α) (hgf : ∀ a, L.valid a → g (f a) = a) :
    (L.map f g hgf).get = L.andThen fun a t => some (f a, t) := by
  funext b
  simp [map, andThen, Option.map_eq_bind]

/-- A filtered mapped layout reads the value, maps it and checks it. -/
theorem get_filter_map (L : Layout α) (f : α → β) (g : β → α)
    (hgf : ∀ a, L.valid a → g (f a) = a) (p : β → Bool) :
    ((L.map f g hgf).filter p).get =
      L.andThen fun a t => if p (f a) then some (f a, t) else none := by
  funext b
  rcases hb : L.get b with _ | ⟨a, t⟩ <;> simp [filter, map, andThen, hb, Option.filter]

/-- A value, then the layout it selects, are read one after the other. -/
theorem andThen_bind {γ : Type} (L : Layout κ) (M : κ → Layout α)
    (h : κ × α → Bytes → Option (γ × Bytes)) :
    (L.bind M).andThen h = L.andThen fun k => (M k).andThen fun a => h (k, a) := by
  funext b
  rcases hb : L.get b with _ | ⟨k, t⟩
  · simp [andThen, bind, hb]
  · rcases ht : (M k).get t with _ | ⟨a, u⟩ <;> simp [andThen, bind, hb, ht]

/-- A count or a length, then the layout it selects, are read one after the other. -/
theorem andThen_dep {γ : Type} (L : Layout κ) (key : α → κ) (M : κ → Layout α)
    (hkey : ∀ k v, (M k).valid v → key v = k) (h : α → Bytes → Option (γ × Bytes)) :
    (L.dep key M hkey).andThen h = L.andThen fun k => (M k).andThen h := by
  funext b
  rcases hb : L.get b with _ | ⟨k, t⟩ <;> simp [andThen, dep, hb]

/-- A value that does not pass the check is not read. -/
theorem get_filter_of_not (L : Layout α) {p : α → Bool} {v : α} (h : L.valid v) (hp : p v = false)
    (t : Bytes) : (L.filter p).get (L.put v ++ t) = none := by
  simp [filter, L.get_put v t h, Option.filter, hp]

/-- A `k`-byte count, then that many values. -/
def counted (k : ℕ) (L : Layout α) : Layout (List α) :=
  dep (le k) List.length (vec L) fun _ _ h => h.1

/-- A `k`-byte count, then that many bytes. -/
def countedBytes (k : ℕ) : Layout Bytes :=
  dep (le k) List.length raw fun _ _ h => h

/-- A 16-bit word, least significant byte first. -/
def u16 : Layout UInt16 :=
  (le 2).map UInt16.ofNat UInt16.toNat fun _ h => UInt16.toNat_ofNat_of_lt h

/-- A 32-bit word, least significant byte first. -/
def u32 : Layout UInt32 :=
  (le 4).map UInt32.ofNat UInt32.toNat fun _ h => UInt32.toNat_ofNat_of_lt h

/-- A 64-bit word, least significant byte first. -/
def u64 : Layout UInt64 :=
  (le 8).map UInt64.ofNat UInt64.toNat fun _ h => UInt64.toNat_ofNat_of_lt h

/-! ## Counts read as words -/

/-- A one-byte count is read as a byte. -/
theorem le_get_u8 (b : Bytes) : (le 1).get b = (u8.get b).map fun q => (q.1.toNat, q.2) := by
  rcases b with _ | ⟨x, b⟩ <;> simp [le, getLE, u8]

/-- A two-byte count is read as a 16-bit word. -/
theorem le_get_u16 (b : Bytes) : (le 2).get b = (u16.get b).map fun q => (q.1.toNat, q.2) := by
  rcases hb : (le 2).get b with _ | ⟨n, t⟩
  · simp [u16, map, hb]
  · have hn : (UInt16.ofNat n).toNat = n := UInt16.toNat_ofNat_of_lt ((le 2).put_get b n t hb).1
    simp only [u16, map, hb, Option.map_some, hn]

/-- A four-byte count is read as a 32-bit word. -/
theorem le_get_u32 (b : Bytes) : (le 4).get b = (u32.get b).map fun q => (q.1.toNat, q.2) := by
  rcases hb : (le 4).get b with _ | ⟨n, t⟩
  · simp [u32, map, hb]
  · have hn : (UInt32.ofNat n).toNat = n := UInt32.toNat_ofNat_of_lt ((le 4).put_get b n t hb).1
    simp only [u32, map, hb, Option.map_some, hn]

/-- A string off which a value is read is as long as any value of the layout must be. -/
theorem le_length_of_andThen {L : Layout α} {h : α → Bytes → Option (β × Bytes)} {k : ℕ} {b : Bytes}
    {q : β × Bytes} (hL : ∀ a, L.valid a → k ≤ (L.put a).length) (hq : L.andThen h b = some q) :
    k ≤ b.length := by
  obtain ⟨⟨a, u⟩, hget, -⟩ := Option.bind_eq_some_iff.mp hq
  obtain ⟨hvalid, -⟩ := L.put_get b a u hget
  have ha := hL a hvalid
  have hb := L.length_of_get hget
  omega

/-- `n` values of at least `k` bytes take at least `k * n` bytes. -/
theorem le_length_put_vec {L : Layout α} {k n : ℕ} (hL : ∀ a, k ≤ (L.put a).length) (l : List α)
    (hl : (L.vec n).valid l) : k * n ≤ ((L.vec n).put l).length := by
  obtain ⟨rfl, -⟩ := hl
  change k * l.length ≤ (l.flatMap L.put).length
  induction l with
  | nil => simp
  | cons a l ih =>
    have ha := hL a
    rw [List.length_cons, List.flatMap_cons, List.length_append, Nat.mul_add_one]
    omega

/-! ## What the combinators carry and write -/

/-- Every byte is carried. -/
@[simp] theorem valid_u8 (v : UInt8) : u8.valid v := trivial

/-- A byte is written as itself. -/
@[simp] theorem put_u8 (v : UInt8) : u8.put v = [v] := rfl

/-- The numbers below `256 ^ k` are carried. -/
@[simp] theorem valid_le (k v : ℕ) : (le k).valid v ↔ v < 256 ^ k := Iff.rfl

/-- They are written by `putLE`. -/
@[simp] theorem put_le (k v : ℕ) : (le k).put v = putLE k v := rfl

/-- The strings of `n` bytes are carried. -/
@[simp] theorem valid_raw (n : ℕ) (v : Bytes) : (raw n).valid v ↔ v.length = n := Iff.rfl

/-- A string is written as it stands. -/
@[simp] theorem put_raw (n : ℕ) (v : Bytes) : (raw n).put v = v := rfl

/-- Only the fixed value is carried. -/
@[simp] theorem valid_const (a v : α) : (const a).valid v ↔ v = a := Iff.rfl

/-- It takes no bytes. -/
@[simp] theorem put_const (a v : α) : (const a).put v = [] := rfl

/-- A mapped layout carries the values that go there and back. -/
@[simp] theorem valid_map (L : Layout α) (f : α → β) (g : β → α)
    (h : ∀ a, L.valid a → g (f a) = a) (v : β) :
    (L.map f g h).valid v ↔ L.valid (g v) ∧ f (g v) = v := Iff.rfl

/-- It writes what the value goes back to. -/
@[simp] theorem put_map (L : Layout α) (f : α → β) (g : β → α)
    (h : ∀ a, L.valid a → g (f a) = a) (v : β) :
    (L.map f g h).put v = L.put (g v) := rfl

/-- A value and one of the layout it selects are carried together. -/
@[simp] theorem valid_bind (L : Layout κ) (M : κ → Layout β) (v : κ × β) :
    (L.bind M).valid v ↔ L.valid v.1 ∧ (M v.1).valid v.2 := Iff.rfl

/-- They are written one after the other. -/
@[simp] theorem put_bind (L : Layout κ) (M : κ → Layout β) (v : κ × β) :
    (L.bind M).put v = L.put v.1 ++ (M v.1).put v.2 := rfl

/-- The empty layout carries nothing. -/
@[simp] theorem valid_empty (v : α) : ¬ (empty : Layout α).valid v := id

/-- A pair is carried by its parts. -/
@[simp] theorem valid_pair (L : Layout α) (M : Layout β) (v : α × β) :
    (L.pair M).valid v ↔ L.valid v.1 ∧ M.valid v.2 := Iff.rfl

/-- It is written part by part. -/
@[simp] theorem put_pair (L : Layout α) (M : Layout β) (v : α × β) :
    (L.pair M).put v = L.put v.1 ++ M.put v.2 := rfl

/-- A value is carried with its key, by the layout the key selects. -/
@[simp] theorem valid_dep (L : Layout κ) (key : β → κ) (M : κ → Layout β)
    (h : ∀ k v, (M k).valid v → key v = k) (v : β) :
    (L.dep key M h).valid v ↔ L.valid (key v) ∧ (M (key v)).valid v := Iff.rfl

/-- It is written behind its key. -/
@[simp] theorem put_dep (L : Layout κ) (key : β → κ) (M : κ → Layout β)
    (h : ∀ k v, (M k).valid v → key v = k) (v : β) :
    (L.dep key M h).put v = L.put (key v) ++ (M (key v)).put v := rfl

/-- The lists of `n` carried values are carried. -/
@[simp] theorem valid_vec (L : Layout α) (n : ℕ) (l : List α) :
    (L.vec n).valid l ↔ l.length = n ∧ ∀ a ∈ l, L.valid a := Iff.rfl

/-- They are written value by value. -/
@[simp] theorem put_vec (L : Layout α) (n : ℕ) (l : List α) :
    (L.vec n).put l = l.flatMap L.put := rfl

/-- A filtered layout carries the values that pass the check. -/
@[simp] theorem valid_filter (L : Layout α) (p : α → Bool) (v : α) :
    (L.filter p).valid v ↔ L.valid v ∧ p v = true := Iff.rfl

/-- It writes them as before. -/
@[simp] theorem put_filter (L : Layout α) (p : α → Bool) (v : α) :
    (L.filter p).put v = L.put v := rfl

/-- The lists whose length the count can hold are carried. -/
@[simp] theorem valid_counted (k : ℕ) (L : Layout α) (l : List α) :
    (counted k L).valid l ↔ l.length < 256 ^ k ∧ ∀ a ∈ l, L.valid a := by
  simp [counted]

/-- A list is written behind its count. -/
@[simp] theorem put_counted (k : ℕ) (L : Layout α) (l : List α) :
    (counted k L).put l = putLE k l.length ++ l.flatMap L.put := rfl

/-- The strings whose length the count can hold are carried. -/
@[simp] theorem valid_countedBytes (k : ℕ) (l : Bytes) :
    (countedBytes k).valid l ↔ l.length < 256 ^ k :=
  ⟨fun h => h.1, fun h => ⟨h, rfl⟩⟩

/-- A string is written behind its length. -/
@[simp] theorem put_countedBytes (k : ℕ) (l : Bytes) :
    (countedBytes k).put l = putLE k l.length ++ l := rfl

/-- Every 16-bit word is carried. -/
@[simp] theorem valid_u16 (v : UInt16) : u16.valid v := ⟨v.toNat_lt, UInt16.ofNat_toNat⟩

/-- It takes two bytes. -/
@[simp] theorem put_u16 (v : UInt16) : u16.put v = putLE 2 v.toNat := rfl

/-- Every 32-bit word is carried. -/
@[simp] theorem valid_u32 (v : UInt32) : u32.valid v := ⟨v.toNat_lt, UInt32.ofNat_toNat⟩

/-- It takes four bytes. -/
@[simp] theorem put_u32 (v : UInt32) : u32.put v = putLE 4 v.toNat := rfl

/-- Every 64-bit word is carried. -/
@[simp] theorem valid_u64 (v : UInt64) : u64.valid v := ⟨v.toNat_lt, UInt64.ofNat_toNat⟩

/-- It takes eight bytes. -/
@[simp] theorem put_u64 (v : UInt64) : u64.put v = putLE 8 v.toNat := rfl

end Layout

end Codec
