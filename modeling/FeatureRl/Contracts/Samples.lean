import FeatureRl.Contracts.Values

/-! The texts and numbers that samples share are well formed. -/

namespace FeatureRl

theorem firstSchema : 1 ≤ 1 ∧ 1 ≤ 2 := by decide

theorem isLowerHex_0 : isLowerHex '0' = true := rfl
theorem isLowerHex_1 : isLowerHex '1' = true := rfl
theorem isLowerHex_2 : isLowerHex '2' = true := rfl
theorem isLowerHex_3 : isLowerHex '3' = true := rfl
theorem isLowerHex_4 : isLowerHex '4' = true := rfl
theorem isLowerHex_5 : isLowerHex '5' = true := rfl
theorem isLowerHex_6 : isLowerHex '6' = true := rfl
theorem isLowerHex_7 : isLowerHex '7' = true := rfl
theorem isLowerHex_8 : isLowerHex '8' = true := rfl
theorem isLowerHex_a : isLowerHex 'a' = true := rfl
theorem isLowerHex_b : isLowerHex 'b' = true := rfl
theorem isLowerHex_c : isLowerHex 'c' = true := rfl
theorem isLowerHex_d : isLowerHex 'd' = true := rfl
theorem isLowerHex_e : isLowerHex 'e' = true := rfl

theorem isDigest_replicate {digit : Char} (hex : isLowerHex digit = true) :
    isDigest (String.ofList (List.replicate 64 digit)) = true := by simp [isDigest, hex]

theorem isDigest_as : isDigest (String.ofList (List.replicate 64 'a')) = true := isDigest_replicate isLowerHex_a

theorem isDigest_zeros :
    isDigest "0000000000000000000000000000000000000000000000000000000000000000" = true := by decide +kernel

theorem isDigest_source :
    isDigest "6ad189ace456a83fade855d5a647cd8ad9e7966da4404b1187218dca3d9eddaa" = true := by decide +kernel

theorem isRevision_sample : isRevision "797efd83f8c15deef7f4d4762a8c92d8b5a9305f" = true := by decide +kernel

theorem isRevision_replicate : isRevision (String.ofList (List.replicate 40 'a')) = true := by decide

theorem isIdentifier_taskBundle : isIdentifier "TaskBundle" = true := rfl
theorem isIdentifier_sourceArchive : isIdentifier "source-archive" = true := rfl
theorem isIdentifier_submission : isIdentifier "m4-submission" = true := rfl
theorem isIdentifier_contract : isIdentifier "contract" = true := rfl
theorem isIdentifier_family : isIdentifier "family" = true := rfl
theorem isIdentifier_click : isIdentifier "click" = true := rfl
theorem isIdentifier_rq : isIdentifier "rq" = true := rfl

theorem isText_one : isText "1" = true := by decide

theorem isText_unmeasured : isText "unmeasured" = true := by decide

theorem within_100 : (decide (1 ≤ 1) && decide (1 ≤ 100)) = true := rfl
theorem within_10000 : (decide (1 ≤ 1) && decide (1 ≤ 10000)) = true := rfl
theorem three_within_100 : (decide (1 ≤ 3) && decide (3 ≤ 100)) = true := rfl

def newYear : Timestamp := ⟨2026, 1, 1, 0, 0, 0, 0, by decide⟩

def zeroFloat : NonnegativeFloat := ⟨⟨false, 0, -1074, by decide⟩, rfl⟩

def oneFloat : Binary64 := ⟨false, 2 ^ 52, -52, by decide⟩

end FeatureRl
