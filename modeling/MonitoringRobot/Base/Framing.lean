import MonitoringRobot.Base.Machine

/-!
# Frames of a fixed size in a byte stream

A collector waits for a frame of a fixed size, checks bytes of it as they arrive, and hands
the complete frame to a consumer. Behind a byte that fails its check it starts anew. On a
stream of well-formed frames the collector works as the consumer alone does frame by frame.
-/

namespace MonitoringRobot.Base

universe u v

/-- The size of a frame, and the check a byte has to pass at its place. -/
structure Framing where
  size : Nat
  check : Nat → UInt8 → Bool

/-- The bytes of a frame collected so far, and the consumer's state. -/
structure Collector (σ : Type u) where
  cached : List UInt8
  state : σ

namespace Framing
open Machine

variable {σ : Type u} {ο : Type v}

/-- One byte: `lost` is what a failed check does to the consumer. -/
def onByte (f : Framing) (lost : σ → σ) (consume : σ → List UInt8 → σ × List ο)
    (c : Collector σ) (byte : UInt8) : Collector σ × List ο :=
  if f.check c.cached.length byte then
    if c.cached.length + 1 = f.size then
      ({ cached := [], state := (consume c.state (c.cached ++ [byte])).1 },
        (consume c.state (c.cached ++ [byte])).2)
    else ({ c with cached := c.cached ++ [byte] }, [])
  else ({ cached := [], state := lost c.state }, [])

/-- Bytes that form a frame. -/
structure Frame (f : Framing) (bytes : List UInt8) : Prop where
  size_eq : bytes.length = f.size
  pos : 0 < f.size
  checked : ∀ i (h : i < bytes.length), f.check i bytes[i] = true

variable {f : Framing} {lost : σ → σ} {consume : σ → List UInt8 → σ × List ο}

/-- History rule: a fact about the consumer's state and everything put out so far, which a
frame and a failed check preserve, is preserved by every byte. -/
theorem onByte_history {P : σ → List ο → Prop} (hlost : ∀ s out, P s out → P (lost s) out)
    (hconsume : ∀ s out frame, P s out → P (consume s frame).1 (out ++ (consume s frame).2))
    {c : Collector σ} {out : List ο} (h : P c.state out) (b : UInt8) :
    P (f.onByte lost consume c b).1.state (out ++ (f.onByte lost consume c b).2) := by
  unfold onByte
  split
  · split
    · exact hconsume c.state out _ h
    · rw [List.append_nil]
      exact h
  · rw [List.append_nil]
    exact hlost c.state out h

theorem emit_start {start part rest : List UInt8} (hframe : f.Frame (start ++ (part ++ rest)))
    (hrest : rest ≠ []) (s : σ) :
    emit (f.onByte lost consume) { cached := start, state := s } part =
      ({ cached := start ++ part, state := s }, []) := by
  induction part generalizing start with
  | nil => rw [emit_nil, List.append_nil]
  | cons b part ih =>
    have hlen := hframe.size_eq
    have hpos := List.length_pos_iff.mpr hrest
    rw [List.length_append, List.length_append, List.length_cons] at hlen
    have hcheck : f.check start.length b = true := by
      have hb := hframe.checked start.length (by
        rw [List.length_append, List.length_append, List.length_cons]
        omega)
      rwa [List.getElem_append_right (Nat.le_refl _), List.getElem_append_left (by
        rw [List.length_cons, Nat.sub_self]
        omega), List.getElem_cons, dif_pos (Nat.sub_self _)] at hb
    have hstep : f.onByte lost consume { cached := start, state := s } b =
        ({ cached := start ++ [b], state := s }, []) := by
      rw [onByte, if_pos hcheck, if_neg (by dsimp only; omega)]
    rw [emit_cons_silent _ hstep, ih]
    · rw [List.append_assoc, List.singleton_append]
    · rwa [List.append_assoc, List.singleton_append]

theorem emit_frame {frame : List UInt8} (hframe : f.Frame frame) (s : σ) :
    emit (f.onByte lost consume) { cached := [], state := s } frame =
      ({ cached := [], state := (consume s frame).1 }, (consume s frame).2) := by
  cases frame using List.reverseRecOn with
  | nil =>
    have hsize : 0 = f.size := hframe.size_eq
    exact absurd hframe.pos (by omega)
  | append_singleton start b =>
    have hsize : start.length + 1 = f.size := by
      rw [← hframe.size_eq, List.length_append, List.length_singleton]
    have hcheck : f.check start.length b = true := by
      have hb := hframe.checked start.length (by simp)
      rwa [List.getElem_concat_length rfl] at hb
    have hstart : emit (f.onByte lost consume) { cached := [], state := s } start =
        ({ cached := start, state := s }, []) := emit_start hframe (List.cons_ne_nil b []) s
    rw [emit_concat, hstart, List.nil_append]
    dsimp only
    rw [onByte, if_pos hcheck, if_pos hsize]

/-- A stream of frames is consumed frame by frame. -/
theorem emit_frames {frames : List (List UInt8)} (hframes : ∀ frame ∈ frames, f.Frame frame)
    (s : σ) : emit (f.onByte lost consume) { cached := [], state := s } frames.flatten =
      ({ cached := [], state := (emit consume s frames).1 }, (emit consume s frames).2) := by
  induction frames generalizing s with
  | nil => rfl
  | cons frame frames ih =>
    rw [List.flatten_cons, emit_append, emit_frame (hframes frame (List.mem_cons_self ..)),
      ih fun g hg ↦ hframes g (List.mem_cons_of_mem frame hg), emit_cons]

/-- Bytes that fail the first check pass between two frames. -/
theorem emit_skip {bs : List UInt8} (hbs : ∀ b ∈ bs, f.check 0 b = false)
    {s : σ} (hs : lost s = s) :
    emit (f.onByte lost consume) { cached := [], state := s } bs =
      ({ cached := [], state := s }, []) := by
  induction bs with
  | nil => rfl
  | cons b bs ih =>
    have hstep : f.onByte lost consume { cached := [], state := s } b =
        ({ cached := [], state := s }, []) := by
      rw [onByte, if_neg (by rw [List.length_nil, hbs b (List.mem_cons_self ..)]; simp), hs]
    rw [emit_cons_silent _ hstep, ih fun c hc ↦ hbs c (List.mem_cons_of_mem b hc)]

end Framing

end MonitoringRobot.Base
