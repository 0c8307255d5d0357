/-!
Natural numbers as bytes, lowest first. Writing with a fixed width and reading are
inverse to each other on the numbers that the width can hold.
-/
namespace LiveExpr.LittleEndian

def toBytes : Nat → Nat → List UInt8
  | 0, _ => []
  | width + 1, n => UInt8.ofNat n :: toBytes width (n / 256)

def ofBytes : List UInt8 → Nat
  | [] => 0
  | b :: rest => b.toNat + 256 * ofBytes rest

theorem length_toBytes (width n : Nat) : (toBytes width n).length = width := by
  induction width generalizing n with
  | zero => rfl
  | succ width ih => simp [toBytes, ih]

/-- How many numbers a width can hold. -/
def span : Nat → Nat
  | 0 => 1
  | width + 1 => 256 * span width

theorem ofBytes_toBytes {width n : Nat} (h : n < span width) : ofBytes (toBytes width n) = n := by
  induction width generalizing n with
  | zero =>
    have : n = 0 := by simpa [span] using h
    simp [toBytes, ofBytes, this]
  | succ width ih =>
    have hlow : (UInt8.ofNat n).toNat = n % 256 := UInt8.toNat_ofNat'
    have hrest : n / 256 < span width := Nat.div_lt_of_lt_mul h
    rw [toBytes, ofBytes, ih hrest, hlow]
    omega

theorem toBytes_ofBytes (bytes : List UInt8) : toBytes bytes.length (ofBytes bytes) = bytes := by
  induction bytes with
  | nil => rfl
  | cons b rest ih =>
    have hb : b.toNat < 256 := b.toNat_lt
    have hdiv : (b.toNat + 256 * ofBytes rest) / 256 = ofBytes rest := by omega
    have hlow : UInt8.ofNat (b.toNat + 256 * ofBytes rest) = b := by
      apply UInt8.toNat_inj.mp
      have h : (UInt8.ofNat (b.toNat + 256 * ofBytes rest)).toNat =
          (b.toNat + 256 * ofBytes rest) % 256 := UInt8.toNat_ofNat'
      omega
    simp [toBytes, ofBytes, hdiv, hlow, ih]

theorem ofBytes_lt (bytes : List UInt8) : ofBytes bytes < span bytes.length := by
  induction bytes with
  | nil => simp [ofBytes, span]
  | cons b rest ih =>
    have hb : b.toNat < 256 := b.toNat_lt
    simp only [ofBytes, List.length_cons, span]
    omega

end LiveExpr.LittleEndian
