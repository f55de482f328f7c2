import NybergRueppel.Digest.Compression

/-!
The two halves of the SHA-2 family: their rotations, their round constants (the fractions of the
cube roots of the first primes) and the chaining values that the four functions start from.
-/
namespace NybergRueppel.Digest

/-- Rotates a word of 32 bits down, by less than 32 places and more than none. -/
def rotate32 (w count : UInt32) : UInt32 :=
  (w >>> count) ||| (w <<< (32 - count))

/-- Rotates a word of 64 bits down, by less than 64 places and more than none. -/
def rotate64 (w count : UInt64) : UInt64 :=
  (w >>> count) ||| (w <<< (64 - count))

/-- The functions on 32-bit words. -/
def narrow : WordFamily UInt32 where
  wordBytes := 4
  ofBytes := fun bytes => bytes.foldl (fun w b => (w <<< 8) ||| b.toUInt32) 0
  toBytes := fun w => bigEndian 4 w.toNat
  bigSigma0 := fun w => rotate32 w 2 ^^^ rotate32 w 13 ^^^ rotate32 w 22
  bigSigma1 := fun w => rotate32 w 6 ^^^ rotate32 w 11 ^^^ rotate32 w 25
  smallSigma0 := fun w => rotate32 w 7 ^^^ rotate32 w 18 ^^^ (w >>> 3)
  smallSigma1 := fun w => rotate32 w 17 ^^^ rotate32 w 19 ^^^ (w >>> 10)
  constants := [
    0x428A2F98, 0x71374491, 0xB5C0FBCF, 0xE9B5DBA5, 0x3956C25B, 0x59F111F1, 0x923F82A4,
    0xAB1C5ED5, 0xD807AA98, 0x12835B01, 0x243185BE, 0x550C7DC3, 0x72BE5D74, 0x80DEB1FE,
    0x9BDC06A7, 0xC19BF174, 0xE49B69C1, 0xEFBE4786, 0x0FC19DC6, 0x240CA1CC, 0x2DE92C6F,
    0x4A7484AA, 0x5CB0A9DC, 0x76F988DA, 0x983E5152, 0xA831C66D, 0xB00327C8, 0xBF597FC7,
    0xC6E00BF3, 0xD5A79147, 0x06CA6351, 0x14292967, 0x27B70A85, 0x2E1B2138, 0x4D2C6DFC,
    0x53380D13, 0x650A7354, 0x766A0ABB, 0x81C2C92E, 0x92722C85, 0xA2BFE8A1, 0xA81A664B,
    0xC24B8B70, 0xC76C51A3, 0xD192E819, 0xD6990624, 0xF40E3585, 0x106AA070, 0x19A4C116,
    0x1E376C08, 0x2748774C, 0x34B0BCB5, 0x391C0CB3, 0x4ED8AA4A, 0x5B9CCA4F, 0x682E6FF3,
    0x748F82EE, 0x78A5636F, 0x84C87814, 0x8CC70208, 0x90BEFFFA, 0xA4506CEB, 0xBEF9A3F7,
    0xC67178F2]

/-- The functions on 64-bit words. -/
def wide : WordFamily UInt64 where
  wordBytes := 8
  ofBytes := fun bytes => bytes.foldl (fun w b => (w <<< 8) ||| b.toUInt64) 0
  toBytes := fun w => bigEndian 8 w.toNat
  bigSigma0 := fun w => rotate64 w 28 ^^^ rotate64 w 34 ^^^ rotate64 w 39
  bigSigma1 := fun w => rotate64 w 14 ^^^ rotate64 w 18 ^^^ rotate64 w 41
  smallSigma0 := fun w => rotate64 w 1 ^^^ rotate64 w 8 ^^^ (w >>> 7)
  smallSigma1 := fun w => rotate64 w 19 ^^^ rotate64 w 61 ^^^ (w >>> 6)
  constants := [
    0x428A2F98D728AE22, 0x7137449123EF65CD, 0xB5C0FBCFEC4D3B2F, 0xE9B5DBA58189DBBC,
    0x3956C25BF348B538, 0x59F111F1B605D019, 0x923F82A4AF194F9B, 0xAB1C5ED5DA6D8118,
    0xD807AA98A3030242, 0x12835B0145706FBE, 0x243185BE4EE4B28C, 0x550C7DC3D5FFB4E2,
    0x72BE5D74F27B896F, 0x80DEB1FE3B1696B1, 0x9BDC06A725C71235, 0xC19BF174CF692694,
    0xE49B69C19EF14AD2, 0xEFBE4786384F25E3, 0x0FC19DC68B8CD5B5, 0x240CA1CC77AC9C65,
    0x2DE92C6F592B0275, 0x4A7484AA6EA6E483, 0x5CB0A9DCBD41FBD4, 0x76F988DA831153B5,
    0x983E5152EE66DFAB, 0xA831C66D2DB43210, 0xB00327C898FB213F, 0xBF597FC7BEEF0EE4,
    0xC6E00BF33DA88FC2, 0xD5A79147930AA725, 0x06CA6351E003826F, 0x142929670A0E6E70,
    0x27B70A8546D22FFC, 0x2E1B21385C26C926, 0x4D2C6DFC5AC42AED, 0x53380D139D95B3DF,
    0x650A73548BAF63DE, 0x766A0ABB3C77B2A8, 0x81C2C92E47EDAEE6, 0x92722C851482353B,
    0xA2BFE8A14CF10364, 0xA81A664BBC423001, 0xC24B8B70D0F89791, 0xC76C51A30654BE30,
    0xD192E819D6EF5218, 0xD69906245565A910, 0xF40E35855771202A, 0x106AA07032BBD1B8,
    0x19A4C116B8D2D0C8, 0x1E376C085141AB53, 0x2748774CDF8EEB99, 0x34B0BCB5E19B48A8,
    0x391C0CB3C5C95A63, 0x4ED8AA4AE3418ACB, 0x5B9CCA4F7763E373, 0x682E6FF3D6B2B8A3,
    0x748F82EE5DEFB2FC, 0x78A5636F43172F60, 0x84C87814A1F0AB72, 0x8CC702081A6439EC,
    0x90BEFFFA23631E28, 0xA4506CEBDE82BDE9, 0xBEF9A3F7B2C67915, 0xC67178F2E372532B,
    0xCA273ECEEA26619C, 0xD186B8C721C0C207, 0xEADA7DD6CDE0EB1E, 0xF57D4F7FEE6ED178,
    0x06F067AA72176FBA, 0x0A637DC5A2C898A6, 0x113F9804BEF90DAE, 0x1B710B35131C471B,
    0x28DB77F523047D84, 0x32CAAB7B40C72493, 0x3C9EBE0A15C9BEBC, 0x431D67C49C100D4C,
    0x4CC5D4BECB3E42B6, 0x597F299CFC657E2A, 0x5FCB6FAB3AD6FAEC, 0x6C44198C4A475817]

/-- The chaining value that SHA-224 starts from. -/
def start224 : Registers UInt32 :=
  { a := 0xC1059ED8, b := 0x367CD507, c := 0x3070DD17, d := 0xF70E5939,
    e := 0xFFC00B31, f := 0x68581511, g := 0x64F98FA7, h := 0xBEFA4FA4 }

/-- The chaining value that SHA-256 starts from. -/
def start256 : Registers UInt32 :=
  { a := 0x6A09E667, b := 0xBB67AE85, c := 0x3C6EF372, d := 0xA54FF53A,
    e := 0x510E527F, f := 0x9B05688C, g := 0x1F83D9AB, h := 0x5BE0CD19 }

/-- The chaining value that SHA-384 starts from. -/
def start384 : Registers UInt64 :=
  { a := 0xCBBB9D5DC1059ED8, b := 0x629A292A367CD507,
    c := 0x9159015A3070DD17, d := 0x152FECD8F70E5939,
    e := 0x67332667FFC00B31, f := 0x8EB44A8768581511,
    g := 0xDB0C2E0D64F98FA7, h := 0x47B5481DBEFA4FA4 }

/-- The chaining value that SHA-512 starts from. -/
def start512 : Registers UInt64 :=
  { a := 0x6A09E667F3BCC908, b := 0xBB67AE8584CAA73B,
    c := 0x3C6EF372FE94F82B, d := 0xA54FF53A5F1D36F1,
    e := 0x510E527FADE682D1, f := 0x9B05688C2B3E6C1F,
    g := 0x1F83D9ABFB41BD6B, h := 0x5BE0CD19137E2179 }

end NybergRueppel.Digest
