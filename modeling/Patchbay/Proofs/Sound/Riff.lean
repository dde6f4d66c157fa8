import Mathlib.Order.Lattice
import Patchbay.Sound.Wav.Channels

/-!
# What a sound file keeps

Floating-point samples that were put into a RIFF WAVE file come out of it as they were, with their
layout. The header has two bytes for the size of a frame and four for the number of bytes a second and
for that of all samples, so these must not be larger. Reading follows the parts in the order in which
they are written, and each part is told apart from what comes behind it by its length.
-/

namespace Patchbay.Wav

/-- A container gives back samples and the layout that they were put in with. -/
def Container.Keeps (container : Container) (spec : WavSpec) (samples : List Stored) : Prop :=
  ∃ bytes, container.pack spec samples = .ok bytes ∧ container.unpack bytes = .ok (samples, spec)

/-! ### Going through bytes -/

variable {α β : Type} {bytes rest : Bytes}

/-- A step that succeeds leaves the rest of the bytes to the next one. -/
theorem bind_ok {reading : Reading α} {value : α} (h : reading bytes = .ok (value, rest))
    (next : α → Reading β) : (reading >>= next) bytes = next value rest := by
  change reading bytes >>= (fun (value, rest) => next value rest) = _
  rw [h]
  rfl

theorem require_ok {condition : Bool} (h : condition = true) (bytes : Bytes) :
    require condition bytes = .ok ((), bytes) := by
  rw [h]
  rfl

theorem take_append {count : Nat} (h : bytes.length = count) (rest : Bytes) :
    take count (bytes ++ rest) = .ok (bytes, rest) := by
  rw [take, List.take_left' h, List.drop_left' h]
  exact if_pos h

/-- A number is read as it was written, if it fits into its bytes. -/
theorem takeNat_append {width n : Nat} (h : n < Bytes.range width) (rest : Bytes) :
    takeNat width (Bytes.ofNat width n ++ rest) = .ok (n, rest) := by
  rw [takeNat, bind_ok (take_append (Bytes.length_ofNat width n) rest), Bytes.toNat_ofNat,
    Nat.mod_eq_of_lt h]
  rfl

/-- What is left behind a number does not depend on what it is. -/
theorem takeNat_append_mod (width n : Nat) (rest : Bytes) :
    takeNat width (Bytes.ofNat width n ++ rest) = .ok (n % Bytes.range width, rest) := by
  rw [takeNat, bind_ok (take_append (Bytes.length_ofNat width n) rest), Bytes.toNat_ofNat]
  rfl

/-! ### The header -/

/-- A layout for which the header has room: floating-point samples, and numbers that fit into their
bytes. -/
structure Fits (spec : WavSpec) : Prop where
  bits : spec.bits = 32
  channels_pos : 0 < spec.channels
  channels_le : spec.channels ≤ 16383
  rate_pos : 0 < spec.sampleRate
  room : spec.sampleRate * (4 * spec.channels) < Bytes.range 4

variable {spec : WavSpec}

theorem Fits.frameBytes (h : Fits spec) : spec.frameBytes = 4 * spec.channels := by
  rw [WavSpec.frameBytes, WavSpec.sampleBytes, h.bits]

theorem Fits.byteRate (h : Fits spec) : byteRate spec = spec.sampleRate * (4 * spec.channels) := by
  rw [Wav.byteRate, h.frameBytes, Nat.mod_eq_of_lt h.room]

theorem Fits.sampleRate_lt (h : Fits spec) : spec.sampleRate < Bytes.range 4 := by
  have hframe : 0 < 4 * spec.channels := Nat.mul_pos (by decide) h.channels_pos
  exact (Nat.le_mul_of_pos_right _ hframe).trans_lt h.room

/-- The header with the identifier of floating-point samples. -/
theorem Fits.formatChunk (h : Fits spec) : formatChunk spec =
    Bytes.ofNat 2 extensibleTag ++ (Bytes.ofNat 2 spec.channels ++ (Bytes.ofNat 4 spec.sampleRate ++
      (Bytes.ofNat 4 (spec.sampleRate * (4 * spec.channels)) ++ (Bytes.ofNat 2 (4 * spec.channels) ++
        (Bytes.ofNat 2 32 ++ (Bytes.ofNat 2 22 ++ (Bytes.ofNat 2 32 ++
          (Bytes.ofNat 4 (speakers spec.channels) ++ formatIdentifier floatTag)))))))) := by
  have hlong : hasShortHeader spec = false := by
    rw [hasShortHeader, h.bits]
    exact Bool.and_false _
  rw [Wav.formatChunk, hlong, if_neg Bool.false_ne_true, commonFormat, h.byteRate, h.bits,
    if_pos rfl, Nat.mul_div_cancel_left _ h.rate_pos]
  simp only [List.append_assoc]

theorem Fits.length_formatChunk (h : Fits spec) : (Wav.formatChunk spec).length = 40 := by
  rw [h.formatChunk]
  simp only [List.length_append, Bytes.length_ofNat]
  rfl

/-- The layout is read as it was written. -/
theorem Fits.takeLayout (h : Fits spec) (rest : Bytes) :
    takeLayout 40 (Wav.formatChunk spec ++ rest) = .ok (⟨spec, true, 4⟩, rest) := by
  have hchannels : spec.channels < Bytes.range 2 := h.channels_le.trans_lt (by decide)
  have hframe : 4 * spec.channels < Bytes.range 2 :=
    (Nat.mul_le_mul_left 4 h.channels_le).trans_lt (by decide)
  have hidentifier : (formatIdentifier floatTag).length = 16 := by decide
  have hwidth : 4 * spec.channels / spec.channels = 4 := Nat.mul_div_cancel _ h.channels_pos
  have hspec : { channels := spec.channels, sampleRate := spec.sampleRate, bits := 32 } = spec := by
    rw [← h.bits]
  rw [h.formatChunk]
  simp only [List.append_assoc]
  refine (bind_ok (require_ok (by decide) _) _).trans ?_
  refine (bind_ok (takeNat_append (by decide) _) _).trans ?_
  refine (bind_ok (takeNat_append hchannels _) _).trans ?_
  refine (bind_ok (takeNat_append h.sampleRate_lt _) _).trans ?_
  refine (bind_ok (takeNat_append h.room _) _).trans ?_
  refine (bind_ok (takeNat_append hframe _) _).trans ?_
  refine (bind_ok (takeNat_append (by decide) _) _).trans ?_
  refine (bind_ok (require_ok (bne_iff_ne.mpr h.channels_pos.ne') _) _).trans ?_
  rw [hwidth]
  refine (bind_ok (require_ok (by decide) _) _).trans ?_
  refine (bind_ok (require_ok (by simp) _) _).trans ?_
  -- the rest belongs to the identifier
  refine (bind_ok (require_ok (by decide) _) _).trans ?_
  refine (bind_ok (takeNat_append (by decide) _) _).trans ?_
  refine (bind_ok (require_ok (by decide) _) _).trans ?_
  refine (bind_ok (takeNat_append (by decide) _) _).trans ?_
  refine (bind_ok (takeNat_append_mod _ _ _) _).trans ?_
  refine (bind_ok (take_append hidentifier _) _).trans ?_
  rw [beq_self_eq_true, if_pos (Bool.true_or _)]
  exact congrArg (fun spec => Except.ok ((⟨spec, true, 4⟩ : Layout), rest)) hspec

/-- The names of the parts of a file have four letters. -/
theorem length_letters : (letters "fmt ").length = 4 ∧ (letters "data").length = 4 ∧
    (letters "RIFF").length = 4 ∧ (letters "WAVE").length = 4 := by decide +kernel

theorem chunk_eq (name : String) (content : Bytes) :
    chunk name content = letters name ++ (Bytes.ofNat 4 content.length ++ content) :=
  List.append_assoc _ _ _

/-- The header tells the layout of the samples behind it, and how many bytes they take. -/
theorem Fits.takeHeader (h : Fits spec) {size : Nat} (hsize : size < Bytes.range 4) (steps : Nat)
    (rest : Bytes) :
    takeHeader (steps + 2) none (chunk "fmt " (Wav.formatChunk spec) ++
      (letters "data" ++ (Bytes.ofNat 4 size ++ rest))) = .ok ((⟨spec, true, 4⟩, size), rest) := by
  have hother : ¬(letters "data" == letters "fmt ") = true := by decide +kernel
  rw [chunk_eq, h.length_formatChunk]
  simp only [List.append_assoc]
  refine (bind_ok (take_append length_letters.1 _) _).trans ?_
  refine (bind_ok (takeNat_append (by decide) _) _).trans ?_
  rw [beq_self_eq_true, if_pos rfl]
  refine (bind_ok (h.takeLayout _) _).trans ?_
  refine (bind_ok (take_append length_letters.2.1 _) _).trans ?_
  refine (bind_ok (takeNat_append hsize _) _).trans ?_
  rw [if_neg hother, beq_self_eq_true, if_pos rfl]
  rfl

/-! ### The samples -/

/-- How a floating-point sample is read. -/
def floatOf (n : Nat) : Stored := .float ⟨UInt32.ofNat n⟩

theorem length_contents (samples : Buffer Sample) :
    ((samples.map Stored.float).flatMap (storedContent 32)).length = 4 * samples.length := by
  induction samples with
  | nil => rfl
  | cons sample samples ih =>
    rw [List.map_cons, List.flatMap_cons, List.length_append, ih, storedContent, Bytes.length_ofNat,
      List.length_cons]
    omega

/-- Samples are read as they were written. -/
theorem takeSamples_contents (samples : Buffer Sample) (rest : Bytes) :
    takeSamples floatOf 4 samples.length
      ((samples.map Stored.float).flatMap (storedContent 32) ++ rest) =
        .ok (samples.map Stored.float, rest) := by
  induction samples with
  | nil => rfl
  | cons sample samples ih =>
    have hbits : sample.bits.toNat < Bytes.range 4 := sample.bits.toNat_lt
    have hsample : floatOf sample.bits.toNat = .float sample := by
      rw [floatOf, UInt32.ofNat_toNat]
    rw [List.map_cons, List.flatMap_cons, List.append_assoc, List.length_cons, takeSamples]
    refine (bind_ok (takeNat_append hbits _) _).trans ?_
    refine (bind_ok ih _).trans ?_
    rw [hsample]
    rfl

/-- A whole file is read as it was written. -/
theorem Fits.takeFile (h : Fits spec) {samples : Buffer Sample}
    (hwhole : spec.channels ∣ samples.length) (hsize : 4 * samples.length < Bytes.range 4)
    (total : Nat) (rest : Bytes) :
    takeFile (letters "RIFF" ++ (Bytes.ofNat 4 total ++ (letters "WAVE" ++
      (chunk "fmt " (Wav.formatChunk spec) ++ (letters "data" ++
        (Bytes.ofNat 4 (4 * samples.length) ++
          ((samples.map Stored.float).flatMap (storedContent 32) ++ rest))))))) =
      .ok ((samples.map Stored.float, spec), rest) := by
  obtain ⟨-, hdata, hriff, hwave⟩ := length_letters
  have hcount : 4 * samples.length / 4 = samples.length := Nat.mul_div_cancel_left _ (by decide)
  have hframes : (4 * samples.length % 4 == 0 &&
      4 * samples.length / 4 % spec.channels == 0) = true := by
    rw [hcount, Nat.mul_mod_right, Nat.mod_eq_zero_of_dvd hwhole]
    rfl
  have hdecoder : decoder ⟨spec, true, 4⟩ = .ok floatOf := by
    rw [decoder, h.bits]
    rfl
  refine (bind_ok (take_append hriff _) _).trans ?_
  refine (bind_ok (require_ok (beq_self_eq_true _) _) _).trans ?_
  refine (bind_ok (takeNat_append_mod _ _ _) _).trans ?_
  refine (bind_ok (take_append hwave _) _).trans ?_
  refine (bind_ok (require_ok (beq_self_eq_true _) _) _).trans ?_
  refine (bind_ok rfl _).trans ?_
  generalize hlength : List.length (chunk "fmt " (Wav.formatChunk spec) ++ _) = length
  -- there are at least as many bytes as chunks, so all of them are gone through
  obtain ⟨steps, rfl⟩ : ∃ steps, length = steps + 2 := by
    refine Nat.exists_eq_add_of_le' ?_
    rw [← hlength, List.length_append, List.length_append, hdata]
    omega
  refine (bind_ok (h.takeHeader hsize steps _) _).trans ?_
  refine (bind_ok (require_ok hframes _) _).trans ?_
  rw [hdecoder, hcount]
  refine (bind_ok (takeSamples_contents samples rest) _).trans ?_
  rfl

/-- A RIFF WAVE file gives back floating-point samples in whole frames, and their layout, if its header
has room for them. -/
theorem riff_keeps (h : Fits spec) {samples : Buffer Sample} (hwhole : spec.channels ∣ samples.length)
    (hsize : 4 * samples.length < Bytes.range 4) : riff.Keeps spec (samples.map .float) := by
  have hdepth : depths.contains spec.bits = true := by
    rw [h.bits]
    decide
  have hfile (total : Nat) := h.takeFile hwhole hsize total []
  rw [List.append_nil] at hfile
  refine ⟨_, if_pos hdepth, ?_⟩
  change (takeFile (chunk "RIFF" _)).map Prod.fst = _
  rw [h.bits, chunk_eq "RIFF", chunk_eq "data", length_contents, List.append_assoc (letters "WAVE"),
    hfile]
  rfl

end Patchbay.Wav
