import Mathlib.Data.List.Basic
import Sentinel.Broker.Postcard

/-!
# Frames as a stream

The frames of `crates/sentinel-broker-proto/src/lib.rs` one after another on a stream. Writer
and reader carry their own bound on the length of a body; the laws say that the two agree: what
was written is read back in order, a stream that was cut short is read up to the cut and refused
there, and a body over the bound is neither written nor read.
-/

namespace Sentinel.Broker

open Sentinel.Base

variable {α : Type}

/-- `write_frame`, `lib.rs:154-163`, on a stream that already holds some bytes. -/
def writeFrameTo (c : Codec α) (msg : α) (out : Bytes) : Except ProtoError Unit × Bytes :=
  match writeFrame c msg with
  | .ok frame => (.ok (), out ++ frame)
  | .error e => (.error e, out)

/-- Messages written one after another, up to the first failure. -/
def writeFrames (c : Codec α) : List α → Bytes → Except ProtoError Unit × Bytes
  | [], out => (.ok (), out)
  | msg :: msgs, out =>
    match writeFrameTo c msg out with
    | (.ok (), out) => writeFrames c msgs out
    | (.error e, out) => (.error e, out)

/-- Some calls of `read_frame`, up to the first failure: the messages, the failure and what is
left of the stream. -/
def readFrames (c : Codec α) : Nat → Bytes → List α × Option ProtoError × Bytes
  | 0, bytes => ([], none, bytes)
  | n + 1, bytes =>
    match readFrame c bytes with
    | (.ok msg, rest) => (msg :: (readFrames c n rest).1, (readFrames c n rest).2)
    | (.error e, rest) => ([], some e, rest)

/-- A message whose body fits into a frame. -/
def Fits (c : Codec α) (msg : α) : Prop :=
  ∃ body, c.toAllocvec msg = some body ∧ body.length ≤ maxFrameLen

/-- A message that fits is written as a frame. -/
theorem Fits.writeFrame {c : Codec α} {msg : α} (h : Fits c msg) :
    ∃ frame, writeFrame c msg = .ok frame := by
  obtain ⟨body, hb, hle⟩ := h
  refine ⟨toLeBytes body.length ++ body, ?_⟩
  simp only [Broker.writeFrame, hb]
  rw [if_neg (by omega)]

/-- A message that does not fit is refused. -/
theorem writeFrame_error {c : Codec α} {msg : α} (h : ¬ Fits c msg) :
    ∃ e, writeFrame c msg = .error e := by
  unfold Broker.writeFrame
  cases hb : c.toAllocvec msg with
  | none => exact ⟨_, rfl⟩
  | some body =>
    have hlen : body.length > maxFrameLen := by
      by_contra hle
      exact h ⟨body, hb, by omega⟩
    exact ⟨_, if_pos hlen⟩

/-- Texts that leave 64 bytes of a frame fit. -/
theorem fits_of_textBytes {c : Codec α} {textBytes : α → Nat} (hc : c.Documented textBytes)
    {msg : α} (h : textBytes msg + 64 ≤ maxFrameLen) : Fits c msg := by
  obtain ⟨body, hb, -, hle⟩ := hc.encodes msg (by unfold maxFrameLen at h; omega)
  exact ⟨body, hb, by omega⟩

/-- Texts of more than a frame do not fit. -/
theorem not_fits {c : Codec α} {textBytes : α → Nat} (hc : c.Documented textBytes) {msg : α}
    (hlt : textBytes msg < 2 ^ 63) (h : maxFrameLen < textBytes msg) : ¬ Fits c msg := by
  rintro ⟨body, hb, hle⟩
  obtain ⟨body', hb', hlen, -⟩ := hc.encodes msg hlt
  rw [hb] at hb'
  cases hb'
  omega

/-- A written frame is put behind what the stream holds. -/
theorem writeFrameTo_of_ok {c : Codec α} {msg : α} {frame : Bytes}
    (h : writeFrame c msg = .ok frame) (out : Bytes) :
    writeFrameTo c msg out = (.ok (), out ++ frame) := by
  rw [writeFrameTo, h]

/-- A body over the bound is refused, and nothing of it is written. -/
theorem writeFrameTo_tooLarge {c : Codec α} {msg : α} {body : Bytes}
    (h : c.toAllocvec msg = some body) (hlt : maxFrameLen < body.length) (out : Bytes) :
    writeFrameTo c msg out = (.error (.tooLarge body.length), out) := by
  have hrefused : writeFrame c msg = .error (.tooLarge body.length) := by
    rw [writeFrame, h]
    exact if_pos hlt
  rw [writeFrameTo, hrefused]

/-- A header over the bound is refused, and nothing behind it is read. -/
theorem readFrame_tooLarge (c : Codec α) {b₀ b₁ b₂ b₃ : UInt8}
    (hlt : maxFrameLen < fromLeBytes b₀ b₁ b₂ b₃) (rest : Bytes) :
    readFrame c (b₀ :: b₁ :: b₂ :: b₃ :: rest) =
      (.error (.tooLarge (fromLeBytes b₀ b₁ b₂ b₃)), rest) := by
  rw [readFrame]
  exact if_pos hlt

/-- A frame that was cut short is not read at all. -/
theorem readFrame_truncated {c : Codec α} {msg : α} {frame p : Bytes}
    (h : writeFrame c msg = .ok frame) (hp : p <+: frame) (hne : p ≠ frame) :
    readFrame c p = (.error .io, []) := by
  obtain ⟨cut, rfl⟩ := hp
  have hcut : 0 < cut.length := by
    apply List.length_pos_iff.mpr
    rintro rfl
    exact hne (List.append_nil p).symm
  unfold writeFrame at h
  cases hb : c.toAllocvec msg with
  | none => rw [hb] at h; cases h
  | some body =>
    simp only [hb] at h
    split at h
    next => cases h
    next hle =>
      have he : toLeBytes body.length ++ body = p ++ cut := Except.ok.inj h
      match p, he with
      | [], _ => rfl
      | [_], _ => rfl
      | [_, _], _ => rfl
      | [_, _, _], _ => rfl
      | b₀ :: b₁ :: b₂ :: b₃ :: rest, he =>
        -- The header is whole, so it announces the length of the body.
        obtain ⟨c₀, c₁, c₂, c₃, hhead, hn⟩ :=
          fromLeBytes_toLeBytes (n := body.length) (by unfold maxFrameLen at hle; omega) body
        rw [hhead] at he
        simp only [List.cons_append, List.cons.injEq] at he
        obtain ⟨rfl, rfl, rfl, rfl, hbody⟩ := he
        have hlen : rest.length < body.length := by
          rw [hbody, List.length_append]
          omega
        simp only [readFrame, hn]
        rw [if_neg hle, if_pos hlen]

/-! ### Streams -/

/-- The bytes of a list of messages that fit. -/
theorem exists_stream {c : Codec α} {msgs : List α} (h : ∀ msg ∈ msgs, Fits c msg) :
    ∃ frames : List Bytes, List.Forall₂ (fun msg frame ↦ writeFrame c msg = .ok frame) msgs frames ∧
      ∀ out, writeFrames c msgs out = (.ok (), out ++ frames.flatten) := by
  induction msgs with
  | nil => exact ⟨[], .nil, fun out ↦ by simp [writeFrames]⟩
  | cons msg msgs ih =>
    obtain ⟨frame, hf⟩ := (h msg List.mem_cons_self).writeFrame
    obtain ⟨frames, hall, hw⟩ := ih (fun m hm ↦ h m (List.mem_cons_of_mem _ hm))
    refine ⟨frame :: frames, .cons hf hall, fun out ↦ ?_⟩
    rw [writeFrames, writeFrameTo_of_ok hf]
    simp only [hw, List.flatten_cons, List.append_assoc]

section Inverts

variable {c : Codec α} (hc : ∀ msg body, c.toAllocvec msg = some body → c.fromBytes body = some msg)
include hc

/-- What was written is read back in order, and what follows is left. -/
theorem readFrames_stream {msgs : List α} {frames : List Bytes}
    (h : List.Forall₂ (fun msg frame ↦ writeFrame c msg = .ok frame) msgs frames) (rest : Bytes) :
    readFrames c msgs.length (frames.flatten ++ rest) = (msgs, none, rest) := by
  induction h with
  | nil => rfl
  | @cons msg frame msgs frames hf _ ih =>
    rw [List.length_cons, readFrames, List.flatten_cons, List.append_assoc,
      readFrame_writeFrame (hc msg) hf]
    simp only [ih]

/-- A stream that was cut short is read up to the frame with the cut, and refused there however
often the reader is called. -/
theorem readFrames_truncated {msgs : List α} {frames : List Bytes}
    (h : List.Forall₂ (fun msg frame ↦ writeFrame c msg = .ok frame) msgs frames) {p : Bytes}
    (hp : p <+: frames.flatten) (hne : p ≠ frames.flatten) :
    ∃ n, n < msgs.length ∧ ∀ k, n < k → readFrames c k p = (msgs.take n, some .io, []) := by
  induction h generalizing p with
  | nil => exact absurd (List.prefix_nil.mp hp) hne
  | @cons msg frame msgs frames hf _ ih =>
    rw [List.flatten_cons] at hp hne
    -- The cut lies in the first frame or behind it.
    by_cases hfp : frame <+: p
    · obtain ⟨p', rfl⟩ := hfp
      rw [List.prefix_append_right_inj] at hp
      rw [Ne, List.append_cancel_left_eq] at hne
      obtain ⟨n, hn, hread⟩ := ih hp hne
      refine ⟨n + 1, Nat.succ_lt_succ hn, fun k hk ↦ ?_⟩
      obtain ⟨k, rfl⟩ : ∃ j, k = j + 1 := ⟨k - 1, by omega⟩
      rw [readFrames, readFrame_writeFrame (hc msg) hf]
      simp only [hread k (by omega), List.take_succ_cons]
    · have hpf : p <+: frame :=
        (List.prefix_or_prefix_of_prefix hp (List.prefix_append frame frames.flatten)).resolve_right
          hfp
      have hpne : p ≠ frame := by
        rintro rfl
        exact hfp (List.prefix_refl p)
      refine ⟨0, Nat.succ_pos _, fun k hk ↦ ?_⟩
      obtain ⟨k, rfl⟩ : ∃ j, k = j + 1 := ⟨k - 1, by omega⟩
      rw [readFrames, readFrame_truncated hf hpf hpne]
      rfl

end Inverts

/-- Frames delimit themselves: messages that fit are written, read back in order from the stream
with anything behind it, and read up to the cut from a stream that was cut short; a body over the
bound is refused by the writer without a byte, and by the reader without reading it. -/
theorem frames_delimit {c : Codec α}
    (hc : ∀ msg body, c.toAllocvec msg = some body → c.fromBytes body = some msg) :
    (∀ msgs : List α, (∀ msg ∈ msgs, Fits c msg) →
      ∃ stream : Bytes, (∀ out, writeFrames c msgs out = (.ok (), out ++ stream)) ∧
        (∀ rest, readFrames c msgs.length (stream ++ rest) = (msgs, none, rest)) ∧
        ∀ p, p <+: stream → p ≠ stream →
          ∃ n, n < msgs.length ∧
            ∀ k, n < k → ∃ e rest, readFrames c k p = (msgs.take n, some e, rest)) ∧
    (∀ msg body, c.toAllocvec msg = some body → maxFrameLen < body.length →
      ∀ out, writeFrameTo c msg out = (.error (.tooLarge body.length), out)) ∧
    (∀ b₀ b₁ b₂ b₃, maxFrameLen < fromLeBytes b₀ b₁ b₂ b₃ →
      ∀ rest, readFrame c (b₀ :: b₁ :: b₂ :: b₃ :: rest) =
        (.error (.tooLarge (fromLeBytes b₀ b₁ b₂ b₃)), rest)) := by
  refine ⟨fun msgs hfit ↦ ?_, fun msg body hb hlt out ↦ writeFrameTo_tooLarge hb hlt out,
    fun b₀ b₁ b₂ b₃ hlt rest ↦ readFrame_tooLarge c hlt rest⟩
  obtain ⟨frames, hall, hw⟩ := exists_stream hfit
  refine ⟨frames.flatten, hw, readFrames_stream hc hall, fun p hp hne ↦ ?_⟩
  obtain ⟨n, hn, hread⟩ := readFrames_truncated hc hall hp hne
  exact ⟨n, hn, fun k hk ↦ ⟨.io, [], hread k hk⟩⟩

/-- A record request and a ping, with one byte behind them. -/
theorem recordAndPing_delimit :
    let msgs := [Request.recordRemember ⟨1000, 3, "sudo".toList, "id".toList⟩, .ping]
    ∃ stream : Bytes, writeFrames Postcard.wire.request msgs [] = (.ok (), stream) ∧
      readFrames Postcard.wire.request 2 (stream ++ [7]) = (msgs, none, [7]) ∧
      ∃ n e rest, n < 2 ∧
        readFrames Postcard.wire.request 2 (stream.take 9) = (msgs.take n, some e, rest) := by
  intro msgs
  have hfit : ∀ msg ∈ msgs, Fits Postcard.wire.request msg := by
    intro msg hm
    rcases List.mem_pair.mp hm with rfl | rfl
    · exact ⟨_, rfl, by decide⟩
    · exact ⟨_, rfl, by decide⟩
  obtain ⟨stream, hw, hread, hcut⟩ :=
    (frames_delimit Postcard.wire.request_documented.inverts).1 msgs hfit
  have hstream : stream.length = 21 := by
    have hlen := congrArg (fun r : Except ProtoError Unit × Bytes ↦ r.2.length) (hw [])
    rw [List.nil_append] at hlen
    exact hlen.symm
  obtain ⟨n, hn, hk⟩ := hcut (stream.take 9) (List.take_prefix 9 stream) (by
    intro he
    have := congrArg List.length he
    rw [List.length_take] at this
    omega)
  obtain ⟨e, rest, he⟩ := hk 2 hn
  exact ⟨stream, hw [], hread [7], n, e, rest, hn, he⟩

end Sentinel.Broker
