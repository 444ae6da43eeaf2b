import Mathlib.Tactic
import Ringtone.Sound.Wav

/-!
# What a sound file declares

A file is read field by field, each at its offset and as a number with the lowest byte first. A file
that is written declares its own size, the format, the rate and the size of the samples, and the
samples are all of the rest.
-/

namespace Ringtone.Sound

/-- The number that bytes are, the lowest first. -/
def numberOf : List UInt8 → ℕ
  | [] => 0
  | byte :: rest => byte.toNat + 256 * numberOf rest

theorem numberOf_bytesOf {width n : ℕ} (h : n < 256 ^ width) : numberOf (bytesOf width n) = n := by
  induction width generalizing n with
  | zero =>
    rw [pow_zero, Nat.lt_one_iff] at h
    rw [h]
    rfl
  | succ width ih =>
    have hrest : n / 256 < 256 ^ width := Nat.div_lt_of_lt_mul (by rwa [pow_succ'] at h)
    have hbyte : n.toUInt8.toNat = n % 256 := UInt8.toNat_ofNat'
    rw [bytesOf, numberOf, ih hrest, hbyte]
    omega

@[simp]
theorem length_bytesOf (width n : ℕ) : (bytesOf width n).length = width := by
  induction width generalizing n with
  | zero => rfl
  | succ width ih => rw [bytesOf, List.length_cons, ih]

@[simp]
theorem length_pcmBytes (samples : List ℤ) : (pcmBytes samples).length = 2 * samples.length := by
  induction samples with
  | nil => rfl
  | cons sample rest ih =>
    rw [pcmBytes, List.flatMap_cons, List.length_append, sampleBytes, length_bytesOf]
    rw [pcmBytes] at ih
    rw [ih, List.length_cons]
    ring

/-- The bytes of a field. -/
def slice (file : List UInt8) (offset width : ℕ) : List UInt8 := (file.drop offset).take width

/-- The number in a field. -/
def field (file : List UInt8) (offset width : ℕ) : ℕ := numberOf (slice file offset width)

/-- A file of one channel with samples of sixteen bits: its marks stand where they belong, and the
fields between them say at which rate and how many bytes of samples there are, which are all of the
rest. -/
structure Declares (file : List UInt8) (rate : ℕ) (samples : List UInt8) : Prop where
  riff : slice file 0 4 = asciiBytes "RIFF"
  size : field file 4 4 + 8 = file.length
  wave : slice file 8 8 = asciiBytes "WAVEfmt "
  formatSize : field file 16 4 = 16
  format : field file 20 2 = 1
  channels : field file 22 2 = 1
  rate_eq : field file 24 4 = rate
  byteRate : field file 28 4 = 2 * rate
  frameSize : field file 32 2 = 2
  bits : field file 34 2 = 16
  data : slice file 36 4 = asciiBytes "data"
  dataSize : field file 40 4 = samples.length
  samples_eq : file.drop 44 = samples

theorem field_eq {file rest : List UInt8} {offset width n : ℕ}
    (h : file.drop offset = bytesOf width n ++ rest) (hn : n < 256 ^ width) :
    field file offset width = n := by
  rw [field, slice, h, List.take_left' (length_bytesOf width n), numberOf_bytesOf hn]

/-- The header, byte by byte where the bytes are fixed. -/
theorem header_eq (rate size : ℕ) : platform.header rate size =
    [0x52, 0x49, 0x46, 0x46] ++ (bytesOf 4 (36 + size) ++
      ([0x57, 0x41, 0x56, 0x45, 0x66, 0x6D, 0x74, 0x20] ++ (bytesOf 4 16 ++ (bytesOf 2 1 ++
        (bytesOf 2 1 ++ (bytesOf 4 rate ++ (bytesOf 4 (2 * rate) ++ (bytesOf 2 2 ++
          (bytesOf 2 16 ++ ([0x64, 0x61, 0x74, 0x61] ++ bytesOf 4 size)))))))))) := by
  have hriff : asciiBytes "RIFF" = [0x52, 0x49, 0x46, 0x46] := by decide
  have hwave : asciiBytes "WAVE" = [0x57, 0x41, 0x56, 0x45] := by decide
  have hformat : asciiBytes "fmt " = [0x66, 0x6D, 0x74, 0x20] := by decide
  have hdata : asciiBytes "data" = [0x64, 0x61, 0x74, 0x61] := by decide
  simp only [platform, wavHeader, hriff, hwave, hformat, hdata, word, halfWord, List.append_assoc,
    List.cons_append, List.nil_append]

/-- A file that is written declares its rate and its samples. -/
theorem declares_wavFile {rate : ℕ} {samples : List ℤ} (hrate : 2 * rate < wordLimit)
    (hsize : 36 + 2 * samples.length < wordLimit) :
    Declares (wavFile rate samples) rate (pcmBytes samples) := by
  have hword : 256 ^ 4 = wordLimit := rfl
  have hlength := length_pcmBytes samples
  rw [wavFile, header_eq]
  refine ⟨?_, ?_, ?_, ?_, ?_, ?_, ?_, ?_, ?_, ?_, ?_, ?_, ?_⟩
  · exact (by decide : [0x52, 0x49, 0x46, 0x46] = asciiBytes "RIFF")
  · rw [field_eq rfl (hword ▸ hsize)]
    simp only [List.length_append, length_bytesOf, hlength, List.length_cons, List.length_nil]
    ring
  · exact (by decide : [0x57, 0x41, 0x56, 0x45, 0x66, 0x6D, 0x74, 0x20] = asciiBytes "WAVEfmt ")
  · exact field_eq rfl (by norm_num)
  · exact field_eq rfl (by norm_num)
  · exact field_eq rfl (by norm_num)
  · exact field_eq rfl (by omega)
  · exact field_eq rfl (by omega)
  · exact field_eq rfl (by norm_num)
  · exact field_eq rfl (by norm_num)
  · exact (by decide : [0x64, 0x61, 0x74, 0x61] = asciiBytes "data")
  · rw [hlength]
    exact field_eq rfl (by omega)
  · rfl

/-- The header has room for a rate and for its double. -/
def HasRoom (rate : ℤ) : Prop := 0 ≤ rate ∧ 2 * rate < wordLimit

theorem wav_of_hasRoom {rate : ℤ} (h : HasRoom rate) (samples : List ℤ) :
    wav (.int rate) samples = if 36 + 2 * samples.length < wordLimit then
      .ok (wavFile rate.toNat samples) else .error .fileTooLarge := by
  have hheader : platform.headerRate (.int rate) = .ok rate.toNat := if_pos h
  rw [wav, hheader]
  rfl

theorem wav_natCast {rate : ℕ} {samples : List ℤ} (hrate : 2 * rate < wordLimit)
    (hsize : 36 + 2 * samples.length < wordLimit) :
    wav (.int rate) samples = .ok (wavFile rate samples) := by
  rw [wav_of_hasRoom ⟨by omega, by exact_mod_cast hrate⟩, if_pos hsize, Int.toNat_natCast]

theorem wav_of_not_hasRoom {rate : ℤ} (h : ¬ HasRoom rate) (samples : List ℤ) :
    wav (.int rate) samples = .error .headerField := by
  have hheader : platform.headerRate (.int rate) = .error .headerField := if_neg h
  rw [wav, hheader]
  rfl

end Ringtone.Sound
