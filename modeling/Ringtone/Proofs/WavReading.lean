import Ringtone.Proofs.RenderFaults

/-!
# Reading a sound file back

A reader goes by the fields of the header alone: the size of the format says where the samples
begin, the size of a frame how far they lie apart, and the bits how wide they are. From a file that
declares its samples it recovers the rate and the samples, whatever they are, as long as each fits
its sixteen bits. The samples that are written do, and so a file has one rate and one sequence of
samples.
-/

namespace Ringtone

open Number Sound

namespace Sound

/-! ## The range of samples -/

theorem abs_truncate_le {x : ℚ} {n : ℤ} (h : |x| ≤ n) : |truncate x| ≤ n := by
  have hfloor : ∀ {y : ℚ}, 0 ≤ y → y ≤ n → 0 ≤ ⌊y⌋ ∧ ⌊y⌋ ≤ n := fun hnonneg hle =>
    ⟨Int.floor_nonneg.mpr hnonneg, Int.floor_le_iff.mpr (by linarith)⟩
  obtain ⟨hlow, hhigh⟩ := abs_le.mp h
  rw [truncate, abs_le]
  split_ifs with hsign
  · obtain ⟨hpos, hle⟩ := hfloor (y := -x) (by linarith) (by linarith)
    rw [floor_eq]
    omega
  · obtain ⟨hpos, hle⟩ := hfloor (not_lt.mp hsign) hhigh
    rw [floor_eq]
    omega

theorem abs_nearest_le {x : ℚ} {n : ℤ} (hn : |n| ≤ 2 ^ 53) (h : |x| ≤ n) : |nearest x| ≤ n := by
  obtain ⟨hlow, hhigh⟩ := abs_le.mp h
  have hgrid : OnGrid n := onGrid_intCast hn
  exact abs_le.mpr ⟨le_nearest hgrid.neg hlow, nearest_le hgrid hhigh⟩

theorem abs_clampRat_le (x : ℚ) : |clampRat x| ≤ 1 := by
  unfold clampRat
  split_ifs with hlow hhigh
  · norm_num
  · norm_num
  · exact abs_le.mpr ⟨not_lt.mp hlow, not_lt.mp hhigh⟩

/-- Full scale is not exceeded, on either side. -/
theorem abs_quantise_le (x : Binary64) : |quantise x| ≤ fullScale := by
  cases x with
  | finite value =>
    have hscaled : |clampRat value * fullScale| ≤ fullScale := by
      have hone := abs_clampRat_le value
      have hscale : (fullScale : ℚ) = 32767 := by norm_num [fullScale]
      rw [abs_mul, hscale, abs_of_pos (by norm_num : (0 : ℚ) < 32767)]
      linarith
    exact abs_truncate_le (abs_nearest_le (by norm_num [fullScale]) hscaled)
  | negativeZero => decide
  | infinite negative => cases negative <;> decide
  | nan => decide

theorem abs_le_of_mem_quantiseAll {samples : List Float} {n : ℤ} (h : n ∈ quantiseAll samples) :
    |n| ≤ fullScale := by
  obtain ⟨sample, _, rfl⟩ := List.mem_map.mp h
  exact abs_quantise_le _

/-! ## A reader -/

/-- The number that the bits of a sample are, the upper half of them standing for the numbers below
zero. -/
def signed (bits n : ℕ) : ℤ := Int.bmod n (2 ^ bits)

/-- The samples from an offset on: so many of them, so far apart, and so wide. -/
def samplesAt (file : List UInt8) (offset count step bits : ℕ) : List ℤ :=
  (List.range count).map fun i => signed bits (field file (offset + step * i) (bits / 8))

/-- The rate and the samples of a file of one channel, found by way of its fields. The samples come
behind the format, whose own size says where it ends, and a mark and a size. -/
def readWav (file : List UInt8) : Option (ℕ × List ℤ) :=
  let rate := field file 24 4
  let frame := field file 32 2
  let bits := field file 34 2
  let chunk := 20 + field file 16 4
  if slice file 0 4 = asciiBytes "RIFF" ∧ field file 4 4 + 8 = file.length ∧
      slice file 8 8 = asciiBytes "WAVEfmt " ∧ field file 20 2 = 1 ∧ field file 22 2 = 1 ∧
      8 * frame = bits ∧ field file 28 4 = rate * frame ∧
      slice file chunk 4 = asciiBytes "data" then
    some (rate, samplesAt file (chunk + 8) (field file (chunk + 4) 4 / frame) frame bits)
  else none

/-- The bytes of a sample give the sample. -/
theorem signed_sampleBytes {n : ℤ} (h : |n| ≤ fullScale) :
    signed 16 (numberOf (sampleBytes n)) = n := by
  have hword : (n % 0x10000).toNat < 256 ^ 2 := by
    have := Int.emod_lt_of_pos n (by norm_num : (0 : ℤ) < 0x10000)
    omega
  have hnonneg : 0 ≤ n % 0x10000 := Int.emod_nonneg _ (by norm_num)
  obtain ⟨hlow, hhigh⟩ := abs_le.mp h
  rw [fullScale] at hlow hhigh
  rw [sampleBytes, numberOf_bytesOf hword, signed, Int.toNat_of_nonneg hnonneg]
  rw [show ((0x10000 : ℤ)) = ((2 ^ 16 : ℕ) : ℤ) by norm_num, Int.emod_bmod]
  exact Int.bmod_eq_of_le (by norm_num; omega) (by norm_num; omega)

/-- Each sample takes two bytes, so that its place is twice its index. -/
theorem slice_pcmBytes {samples : List ℤ} {i : ℕ} (h : i < samples.length) :
    slice (pcmBytes samples) (2 * i) 2 = sampleBytes samples[i] := by
  induction samples generalizing i with
  | nil => exact absurd h (Nat.not_lt_zero i)
  | cons sample rest ih =>
    have hbytes : (sampleBytes sample).length = 2 := length_bytesOf _ _
    rw [slice, pcmBytes, List.flatMap_cons]
    cases i with
    | zero =>
      rw [Nat.mul_zero, List.drop_zero, List.take_left' hbytes]
      rfl
    | succ i =>
      rw [show 2 * (i + 1) = 2 + 2 * i by ring, ← List.drop_drop, List.drop_left' hbytes]
      exact ih (Nat.lt_of_succ_lt_succ h)

/-- Reading the samples behind the header gives back the samples. -/
theorem samplesAt_eq {file : List UInt8} {samples : List ℤ} {offset : ℕ}
    (hfile : file.drop offset = pcmBytes samples) (hrange : ∀ n ∈ samples, |n| ≤ fullScale) :
    samplesAt file offset samples.length 2 16 = samples := by
  refine List.ext_getElem ?_ fun i hi hlength => ?_
  · rw [samplesAt, List.length_map, List.length_range]
  · have hfield : field file (offset + 2 * i) 2 = numberOf (sampleBytes samples[i]) := by
      rw [field, ← slice_pcmBytes hlength, ← hfile, slice, slice, List.drop_drop]
    simp only [samplesAt, List.getElem_map, List.getElem_range]
    rw [hfield]
    exact signed_sampleBytes (hrange _ (List.getElem_mem hlength))

/-- What a file declares is what a reader finds. -/
theorem Declares.readWav_eq {file : List UInt8} {rate : ℕ} {samples : List ℤ}
    (h : Declares file rate (pcmBytes samples)) (hrange : ∀ n ∈ samples, |n| ≤ fullScale) :
    readWav file = some (rate, samples) := by
  have hcount : 2 * samples.length / 2 = samples.length :=
    Nat.mul_div_cancel_left _ (by norm_num)
  have hdata : slice file 36 4 = asciiBytes "data" := h.data
  have hsize : field file 40 4 = 2 * samples.length := h.dataSize.trans (length_pcmBytes samples)
  have hbyteRate : field file 28 4 = rate * 2 := h.byteRate.trans (mul_comm _ _)
  simp only [readWav, h.formatSize, h.rate_eq, h.frameSize, h.bits]
  rw [if_pos ⟨h.riff, h.size, h.wave, h.format, h.channels, trivial, hbyteRate, hdata⟩]
  rw [hsize, hcount, samplesAt_eq h.samples_eq hrange]

end Sound

/-! ## Files that are written -/

namespace Commands

variable {s : Session} {path : Files.Path} {rate : ℕ} {samples : List Float}

/-- Nothing keeps samples from being written: a file can be opened at the path, and the header has
room for rate and size. -/
structure CanWrite (s : Session) (path : Files.Path) (rate : ℕ) (samples : List Float) : Prop where
  isPath : Action.IsPath path
  opens : ∃ opened, s.files.write s.current path [] = .ok opened
  rate_room : 2 * rate < wordLimit
  size_room : 36 + 2 * samples.length < wordLimit

/-- Writing the samples succeeds, and the file is what is found at the path then. -/
def Leaves (s : Session) (path : Files.Path) (rate : ℕ) (samples : List Float)
    (file : List UInt8) : Prop :=
  ∃ after, (writeSamples samples path (.int rate)).perform s = (.ok ⟨⟩, after) ∧
    after.files.read s.current path = .ok file

theorem CanWrite.quantised_room (h : CanWrite s path rate samples) :
    36 + 2 * (quantiseAll samples).length < wordLimit := by
  rw [length_quantiseAll]
  exact h.size_room

theorem CanWrite.leaves (h : CanWrite s path rate samples) :
    Leaves s path rate samples (wavFile rate (quantiseAll samples)) := by
  obtain ⟨opened, hopen⟩ := h.opens
  have hwav := wav_natCast h.rate_room h.quantised_room
  obtain ⟨written, hwrite⟩ :=
    Files.Node.exists_write_of_write hopen (wavFile rate (quantiseAll samples))
  obtain ⟨after, hperform, hlogs⟩ := writeSamples_of_wav h.isPath hopen hwrite hwav
  refine ⟨after, hperform, ?_⟩
  rw [hlogs.files_eq]
  exact Files.Node.read_of_write hwrite

theorem CanWrite.declares (h : CanWrite s path rate samples) :
    Declares (wavFile rate (quantiseAll samples)) rate (pcmBytes (quantiseAll samples)) :=
  declares_wavFile h.rate_room h.quantised_room

theorem CanWrite.readWav_eq (h : CanWrite s path rate samples) :
    readWav (wavFile rate (quantiseAll samples)) = some (rate, quantiseAll samples) :=
  h.declares.readWav_eq fun _ => abs_le_of_mem_quantiseAll

@[simp]
theorem length_wavFile (rate : ℕ) (samples : List ℤ) :
    (wavFile rate samples).length = 44 + 2 * samples.length := by
  rw [wavFile, header_eq, List.length_append, length_pcmBytes]
  simp only [List.length_append, length_bytesOf, List.length_cons, List.length_nil]

variable {other : Session} {otherPath : Files.Path} {otherRate : ℕ} {otherSamples : List Float}

/-- Samples that can be written leave a file of 44 bytes and two for each of them. It declares the
rate and their bytes, and a reader of the declaration recovers the rate and the quantised samples.
So two files are the same exactly when the rates and the quantised samples are. -/
theorem writeSamples_reads_back (h : CanWrite s path rate samples)
    (hother : CanWrite other otherPath otherRate otherSamples) :
    ∃ file otherFile,
      Leaves s path rate samples file ∧ Leaves other otherPath otherRate otherSamples otherFile ∧
      file.length = 44 + 2 * samples.length ∧ field file 40 4 = 2 * samples.length ∧
      Declares file rate (pcmBytes (quantiseAll samples)) ∧
      readWav file = some (rate, quantiseAll samples) ∧
      (file = otherFile ↔ rate = otherRate ∧ quantiseAll samples = quantiseAll otherSamples) := by
  refine ⟨_, _, h.leaves, hother.leaves, ?_, ?_, h.declares, h.readWav_eq, ?_⟩
  · rw [length_wavFile, length_quantiseAll]
  · rw [h.declares.dataSize, length_pcmBytes, length_quantiseAll]
  · constructor
    · intro hsame
      have hread := h.readWav_eq
      rw [hsame, hother.readWav_eq] at hread
      obtain ⟨hrate, hsamples⟩ := Prod.mk.inj (Option.some.inj hread)
      exact ⟨hrate.symm, hsamples.symm⟩
    · rintro ⟨hrate, hsamples⟩
      rw [hrate, hsamples]

/-- Samples that differ by less than a step of sixteen bits leave one file, from which neither can
be told. -/
theorem writeSamples_within_a_step :
    CanWrite (Settings.sessionWith []) (.ofChars "a.wav".toList) 8000 [0.5, -1.0] ∧
      CanWrite (Settings.sessionWith []) (.ofChars "b.wav".toList) 8000 [0.50001, -1.5] ∧
      ∃ file, Leaves (Settings.sessionWith []) (.ofChars "a.wav".toList) 8000 [0.5, -1.0] file ∧
        Leaves (Settings.sessionWith []) (.ofChars "b.wav".toList) 8000 [0.50001, -1.5] file ∧
        file.length = 48 ∧ readWav file = some (8000, [16383, -32767]) := by
  have hfirst : CanWrite (Settings.sessionWith []) (.ofChars "a.wav".toList) 8000 [0.5, -1.0] :=
    ⟨rfl, ⟨_, rfl⟩, by decide, by decide⟩
  have hsecond : CanWrite (Settings.sessionWith []) (.ofChars "b.wav".toList) 8000
      [0.50001, -1.5] := ⟨rfl, ⟨_, rfl⟩, by decide, by decide⟩
  have hquantised : quantiseAll [0.5, -1.0] = [16383, -32767] := by decide +kernel
  have hsame : quantiseAll [0.5, -1.0] = quantiseAll [0.50001, -1.5] := by decide +kernel
  obtain ⟨file, otherFile, hleaves, hotherLeaves, hlength, _, _, hread, hiff⟩ :=
    writeSamples_reads_back hfirst hsecond
  rw [hquantised] at hread
  obtain rfl : file = otherFile := hiff.mpr ⟨rfl, hsame⟩
  exact ⟨hfirst, hsecond, file, hleaves, hotherLeaves, hlength, hread⟩

end Commands

end Ringtone
