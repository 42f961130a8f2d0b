import ScorbitPlugin.Codec.Layout

set_option relaxedAutoImplicit false
set_option autoImplicit false

/-!
# Bounded encoders and their decoders

An encoder with a size bound gives nothing for what it refuses; its decoder reads one value off
the front of a byte string and ignores what follows. A *coding* ties such a pair to a layout, and
round trip, canonicity, truncation and extension follow from the laws of the layout.

Some payloads end in an optional tail: the decoder reads it when the string goes on past the head.

## Main definitions

* `Codec.Bounded` — what a bounded encoder gives.
* `Codec.Coding` — an encoder and a decoder that keep to one layout.
* `Codec.Tailed` — a head layout, and the layout of the head with its tail.

## Main results

* `Codec.Coding.decode_encode`, `Codec.Coding.encode_of_decode` — the two directions.
* `Codec.Coding.decode_of_prefix`, `Codec.Coding.decode_append` — truncation and extension.
* `Codec.Tailed.get_of_prefix` — the one prefix a tailed value is still read from.
-/

namespace Codec

variable {α β : Type}

/-! ## Bounded encoders -/

/-- `out` is `b` if the value is fit to be written and `b` keeps to the bound; otherwise it is
empty. -/
structure Bounded (max : ℕ) (fits : Prop) (b out : Bytes) : Prop where
  /-- What is fit and keeps to the bound is written. -/
  eq_bytes : fits → b.length ≤ max → out = b
  /-- What is not is refused. -/
  eq_nil : ¬ (fits ∧ b.length ≤ max) → out = []

namespace Bounded

variable {max : ℕ} {fits fits' : Prop} {b b' out : Bytes}

/-- The fitness and the bytes may be spelled differently. -/
theorem congr (h : Bounded max fits b out) (hf : fits ↔ fits') (hb : b = b') :
    Bounded max fits' b' out := by
  subst hb
  rwa [← propext hf]

/-- A value that is never fit is refused. -/
theorem refuse (hf : ¬ fits) : Bounded max fits b [] :=
  ⟨fun h => absurd h hf, fun _ => rfl⟩

/-- A non-empty value is refused exactly if it is not fit or too long. -/
theorem eq_nil_iff (h : Bounded max fits b out) (hb : b ≠ []) :
    out = [] ↔ ¬ (fits ∧ b.length ≤ max) := by
  refine ⟨fun hout hfit => hb ?_, h.eq_nil⟩
  rw [← h.eq_bytes hfit.1 hfit.2, hout]

/-- What is not refused is written in full. -/
theorem of_ne_nil (h : Bounded max fits b out) (hout : out ≠ []) :
    fits ∧ b.length ≤ max ∧ out = b := by
  by_cases hfit : fits ∧ b.length ≤ max
  · exact ⟨hfit.1, hfit.2, h.eq_bytes hfit.1 hfit.2⟩
  · exact absurd (h.eq_nil hfit) hout

end Bounded

/-! ## Codings -/

/-- **An encoder and a decoder keep to one layout.** `carried` is what of a value the layout
carries, `fits` are the lengths and rules the encoder holds it to, and `size` is the number of
bytes it takes. -/
structure Coding (max : ℕ) (encode : α → Bytes) (decode : Bytes → Option α) (layout : Layout α)
    (carried : α → α) (fits : α → Prop) (size : α → ℕ) : Prop where
  /-- The encoder writes what the layout carries of a value that fits. -/
  encodes : ∀ v, Bounded max (fits v) (layout.put (carried v)) (encode v)
  /-- The decoder reads the layout. -/
  decodes : ∀ p, decode p = (layout.get p).map Prod.fst
  /-- What is carried of a value that fits is in the layout. -/
  valid_carried : ∀ v, fits v → size v ≤ max → layout.valid (carried v)
  /-- A value of the layout fits, and is carried whole. -/
  of_valid : ∀ v, layout.valid v → carried v = v ∧ fits v
  /-- A value takes as many bytes as its size says. -/
  length_put : ∀ v, (layout.put (carried v)).length = size v
  /-- No value is written as the empty string. -/
  size_pos : ∀ v, 0 < size v

namespace Coding

variable {max : ℕ} {encode : α → Bytes} {decode : Bytes → Option α} {layout : Layout α}
  {carried : α → α} {fits : α → Prop} {size : α → ℕ}

/-- A coding whose layout carries every field. -/
theorem plain (encodes : ∀ v, Bounded max (fits v) (layout.put v) (encode v))
    (decodes : ∀ p, decode p = (layout.get p).map Prod.fst)
    (valid_iff : ∀ v, layout.valid v ↔ fits v) (length_put : ∀ v, (layout.put v).length = size v)
    (size_pos : ∀ v, 0 < size v) : Coding max encode decode layout id fits size where
  encodes := encodes
  decodes := decodes
  valid_carried v h _ := (valid_iff v).mpr h
  of_valid v h := ⟨rfl, (valid_iff v).mp h⟩
  length_put := length_put
  size_pos := size_pos

variable (C : Coding max encode decode layout carried fits size)
include C

/-- No value is written as the empty string. -/
theorem put_ne_nil (v : α) : layout.put (carried v) ≠ [] :=
  List.ne_nil_of_length_pos (by rw [C.length_put]; exact C.size_pos v)

/-- **The encoder refuses exactly what does not fit or is too long.** -/
theorem encode_eq_nil_iff (v : α) : encode v = [] ↔ ¬ (fits v ∧ size v ≤ max) := by
  rw [(C.encodes v).eq_nil_iff (C.put_ne_nil v), C.length_put]

/-- What an encoder writes is a value of the layout. -/
theorem encode_eq_put {v : α} (h : encode v ≠ []) :
    layout.valid (carried v) ∧ encode v = layout.put (carried v) := by
  obtain ⟨hfit, hlen, heq⟩ := (C.encodes v).of_ne_nil h
  rw [C.length_put] at hlen
  exact ⟨C.valid_carried v hfit hlen, heq⟩

/-- What an encoder writes keeps to the bound. -/
theorem length_encode {v : α} (h : encode v ≠ []) : (encode v).length ≤ max := by
  obtain ⟨-, hlen, heq⟩ := (C.encodes v).of_ne_nil h
  rw [heq]
  exact hlen

/-- A written value followed by anything is read back. -/
theorem decode_encode_append {v : α} (h : encode v ≠ []) (t : Bytes) :
    decode (encode v ++ t) = some (carried v) := by
  obtain ⟨hvalid, heq⟩ := C.encode_eq_put h
  rw [C.decodes, heq, layout.get_put _ _ hvalid, Option.map_some]

/-- **A written value is read back.** -/
theorem decode_encode {v : α} (h : encode v ≠ []) : decode (encode v) = some (carried v) := by
  simpa using C.decode_encode_append h []

/-- A value of the layout that keeps to the bound is written as the layout says. -/
theorem encode_of_valid {v : α} (h : layout.valid v) (hlen : (layout.put v).length ≤ max) :
    encode v = layout.put v ∧ encode v ≠ [] := by
  obtain ⟨hsame, hfits⟩ := C.of_valid v h
  have hput := (C.encodes v).eq_bytes hfits
  have hne := C.put_ne_nil v
  rw [hsame] at hput hne
  exact ⟨hput hlen, hput hlen ▸ hne⟩

/-- **Only what would be written is read.** -/
theorem encode_of_decode {p : Bytes} {v : α} (h : decode p = some v) (hp : p.length ≤ max) :
    encode v ≠ [] ∧ encode v <+: p := by
  rw [C.decodes, Option.map_eq_some_iff] at h
  obtain ⟨⟨w, t⟩, hget, rfl⟩ := h
  obtain ⟨hvalid, rfl⟩ := layout.put_get p w t hget
  rw [List.length_append] at hp
  obtain ⟨heq, hne⟩ := C.encode_of_valid hvalid (by omega)
  exact ⟨hne, heq ▸ List.prefix_append _ _⟩

/-- **No proper prefix of a written value is read.** -/
theorem decode_of_prefix {v : α} (h : encode v ≠ []) {q : Bytes} (hq : q <+: encode v)
    (hne : q ≠ encode v) : decode q = none := by
  obtain ⟨r, hr⟩ := hq
  obtain ⟨hvalid, heq⟩ := C.encode_eq_put h
  have hmissing : r ≠ [] := by
    rintro rfl
    exact hne (by rw [← hr, List.append_nil])
  rw [C.decodes, layout.get_of_prefix hvalid (heq ▸ hr.symm) hmissing, Option.map_none]

/-- **What follows a written value does not change what is read.** -/
theorem decode_append {v : α} (h : encode v ≠ []) (t : Bytes) :
    decode (encode v ++ t) = decode (encode v) := by
  rw [C.decode_encode_append h, C.decode_encode h]

end Coding

/-! ## Optional tails -/

/-- A head, and the layout of the head with its tail: the head of a value with a tail is a head
by itself, and the tail is never empty. -/
structure Tailed (α : Type) where
  /-- The layout of a value without its tail. -/
  head : Layout α
  /-- The layout of a value with its tail. -/
  full : Layout α
  /-- The value without its tail. -/
  strip : α → α
  /-- The head of a value can stand alone. -/
  valid_strip : ∀ v, full.valid v → head.valid (strip v)
  /-- The head comes first, and something follows it. -/
  put_full : ∀ v, ∃ r, r ≠ [] ∧ full.put v = head.put (strip v) ++ r

namespace Tailed

/-- The head and the tail are layouts of their own, and `f` and `f'` make a value of the head
alone and of both. -/
def ofFields {η τ : Type} (H : Layout η) (T : Layout τ) (f : η → α) (f' : η × τ → α) (g : α → η)
    (g' : α → τ) (hf : ∀ a, g (f a) = a) (hf' : ∀ a, (g (f' a), g' (f' a)) = a)
    (hT : ∀ b, T.put b ≠ []) : Tailed α where
  head := H.map f g fun a _ => hf a
  full := (H.pair T).map f' (fun v => (g v, g' v)) fun a _ => hf' a
  strip v := f (g v)
  valid_strip v h := by
    obtain ⟨⟨hvalid, -⟩, -⟩ := h
    exact ⟨by rw [hf]; exact hvalid, by rw [hf]⟩
  put_full v := ⟨T.put (g' v), hT _, by simp [hf]⟩

variable (T : Tailed α)

/-- Reads a head alone when the string ends with it, and head and tail when it goes on. -/
def get (p : Bytes) : Option α :=
  match T.head.get p with
  | none => none
  | some (v, []) => some v
  | some (_, _ :: _) => (T.full.get p).map Prod.fst

/-- Reading a head, and a tail if the string goes on, field by field. -/
theorem get_ofFields {η τ : Type} (H : Layout η) (T : Layout τ) (f : η → α) (f' : η × τ → α)
    (g : α → η) (g' : α → τ) (hf : ∀ a, g (f a) = a) (hf' : ∀ a, (g (f' a), g' (f' a)) = a)
    (hT : ∀ b, T.put b ≠ []) (p : Bytes) :
    (ofFields H T f f' g g' hf hf' hT).get p = (H.andThen (fun a t =>
      if t.isEmpty then some (f a, t) else T.andThen (fun b u => some (f' (a, b), u)) t) p).map
        Prod.fst := by
  rcases hp : H.get p with _ | ⟨a, t⟩
  · simp [Tailed.get, ofFields, Layout.map, Layout.andThen, hp]
  · rcases t with _ | ⟨x, t⟩
    · simp [Tailed.get, ofFields, Layout.map, Layout.andThen, hp]
    · rcases ht : T.get (x :: t) with _ | ⟨b, u⟩ <;>
        simp [Tailed.get, ofFields, Layout.map, Layout.andThen, Layout.pair, Layout.bind, hp, ht]

/-- A string that goes on past its head is read with the tail. -/
theorem get_of_tail {p : Bytes} {w : α} {t : Bytes} (h : T.head.get p = some (w, t))
    (ht : t ≠ []) : T.get p = (T.full.get p).map Prod.fst := by
  rcases t with _ | ⟨x, t⟩
  · exact absurd rfl ht
  · simp [Tailed.get, h]

/-- A value without a tail is read back off exactly its bytes. -/
theorem get_head {v : α} (h : T.head.valid v) : T.get (T.head.put v) = some v := by
  simp [Tailed.get, T.head.get_put_self h]

/-- A value with a tail is read back, whatever follows. -/
theorem get_full {v : α} (h : T.full.valid v) (t : Bytes) : T.get (T.full.put v ++ t) = some v := by
  obtain ⟨r, hr, hput⟩ := T.put_full v
  have hhead : T.head.get (T.full.put v ++ t) = some (T.strip v, r ++ t) := by
    rw [hput, List.append_assoc, T.head.get_put _ _ (T.valid_strip v h)]
  rw [T.get_of_tail hhead (by simp [hr]), T.full.get_put v t h, Option.map_some]

/-- **What is read is a head alone, or a head with a tail and whatever follows.**

**Proof sketch.** The head is read first. With nothing left it is the value; with something left
head and tail are read together, and that begins with the head and goes on. -/
theorem of_get {p : Bytes} {v : α} (h : T.get p = some v) :
    (T.head.valid v ∧ p = T.head.put v) ∨
      (T.full.valid v ∧ p ≠ T.head.put (T.strip v) ∧ T.full.put v <+: p) := by
  rcases hhead : T.head.get p with _ | ⟨w, t⟩
  · simp [Tailed.get, hhead] at h
  · rcases t with _ | ⟨x, t⟩
    · simp only [Tailed.get, hhead, Option.some.injEq] at h
      subst h
      obtain ⟨hvalid, hp⟩ := T.head.put_get p w [] hhead
      exact Or.inl ⟨hvalid, by simpa using hp⟩
    · rw [T.get_of_tail hhead (List.cons_ne_nil x t), Option.map_eq_some_iff] at h
      obtain ⟨⟨u, s⟩, hfull, rfl⟩ := h
      obtain ⟨hvalid, hp⟩ := T.full.put_get p u s hfull
      obtain ⟨r, hr, hput⟩ := T.put_full u
      refine Or.inr ⟨hvalid, ?_, ⟨s, hp.symm⟩⟩
      rw [hp, hput, List.append_assoc]
      simp [hr]

/-- No proper prefix of a head is read. -/
theorem get_of_head_prefix {v : α} (h : T.head.valid v) {q r : Bytes}
    (hq : T.head.put v = q ++ r) (hr : r ≠ []) : T.get q = none := by
  simp [Tailed.get, T.head.get_of_prefix h hq hr]

/-- **The one proper prefix of a value with a tail that is read is its head**, and it is read as
the value without the tail.

**Proof sketch.** What is read of a prefix is a head alone, and then it is the head of the value,
for both stand at the front; or it is head and tail, which no proper prefix of the whole is long
enough for. -/
theorem get_of_prefix {v : α} (h : T.full.valid v) {q r : Bytes} (hq : T.full.put v = q ++ r)
    (hr : r ≠ []) :
    (q = T.head.put (T.strip v) → T.get q = some (T.strip v)) ∧
      (q ≠ T.head.put (T.strip v) → T.get q = none) := by
  refine ⟨fun heq => heq ▸ T.get_head (T.valid_strip v h), fun hne => ?_⟩
  rcases hget : T.get q with _ | w
  · rfl
  · rcases T.of_get hget with ⟨hw, rfl⟩ | ⟨hw, -, t, ht⟩
    · -- both `w` and the head of `v` stand at the front of what was written
      obtain ⟨s, -, hput⟩ := T.put_full v
      have hfront : T.head.get (T.full.put v) = some (T.strip v, s) := by
        rw [hput, T.head.get_put _ _ (T.valid_strip v h)]
      rw [hq, T.head.get_put _ _ hw] at hfront
      rw [(Prod.mk.inj (Option.some.inj hfront)).1] at hne
      exact absurd rfl hne
    · have hfull : T.full.get q = some (w, t) := by rw [← ht, T.full.get_put w t hw]
      rw [T.full.get_of_prefix h hq hr] at hfull
      simp at hfull

end Tailed

end Codec
