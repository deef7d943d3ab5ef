/-
Which images `read_config` accepts, over any NVM.

It refuses an image only if both signature bytes are wrong, so one with one
of them right is accepted and copied; on every other outcome of the NVM calls
it accepts a signed image and leaves the structure alone otherwise
(`readConfig_signed_iff`).
-/
import OflMetrics.Boot

namespace OflMetrics

open Embed

/-- The NVM calls succeed and the image is signed. -/
def NvmOutcome.Valid (o : NvmOutcome) : Prop := o.detect = 0 ∧ o.read = 0 ∧ Signed o.image

/-- `ret` and `t'`, for the structure `t`: a valid image is accepted, anything
else refused with a negative code and nothing written. -/
structure NvmOutcome.Judged (o : NvmOutcome) (t : ConfigT) (ret : Int8) (t' : ConfigT) : Prop where
  accepts : ret = 1 ↔ o.Valid
  refuses : ¬ o.Valid → ret < 0 ∧ t' = t

theorem NvmOutcome.judged_refused (o : NvmOutcome) {t : ConfigT} {ret : Int8} (hret : ret < 0) (h : ¬ o.Valid) :
    o.Judged t ret t where
  accepts := by
    refine iff_of_false (fun he => ?_) h
    rw [he] at hret
    exact absurd hret (by decide)
  refuses := fun _ => ⟨hret, rfl⟩

/-- An accepted image is judged rightly exactly when it is valid. -/
theorem NvmOutcome.judged_accepted {o : NvmOutcome} {t t' : ConfigT} : o.Judged t 1 t' ↔ o.Valid := by
  constructor
  · intro h
    exact h.accepts.mp rfl
  · intro h
    exact ⟨iff_of_true rfl h, fun hn => absurd h hn⟩

theorem ReadConfig.judged_iff {o : NvmOutcome} {t t' : ConfigT} {ret : Int8} (h : ReadConfig o t ret t') :
    o.Judged t ret t' ↔ (o.detect = 0 → o.read = 0 → (o.image 0 = 0xF0 ↔ o.image 1 = 0x0F)) := by
  cases h with
  | detectError hd =>
    exact iff_of_true (o.judged_refused (by decide) fun h => hd h.1) fun h => absurd h hd
  | readError hd hr =>
    exact iff_of_true (o.judged_refused (by decide) fun h => hr h.2.1) fun _ h => absurd h hr
  | unsigned hd hr h0 h1 =>
    exact iff_of_true (o.judged_refused (by decide) fun h => h0 h.2.2.1) fun _ _ => iff_of_false h0 h1
  | accepted hd hr hs =>
    rw [NvmOutcome.judged_accepted, NvmOutcome.Valid]
    simp only [hd, hr, true_and, forall_const, Signed]
    tauto

/-- **What `read_config` accepts**: exactly the signed images, with the
structure untouched otherwise, if and only if the image it reads has not just
one of its two signature bytes right. -/
theorem readConfig_signed_iff {σ τ : Type} (nvm : Nvm σ τ) (stack : Mem UInt8) (t : ConfigT) (s : σ) :
    let o := nvm.outcome stack s
    o.Judged t (readConfig nvm stack t s).1 (readConfig nvm stack t s).2.1 ↔
      (o.detect = 0 → o.read = 0 → (o.image 0 = 0xF0 ↔ o.image 1 = 0x0F)) :=
  (readConfig_cases nvm stack t s).judged_iff

/-- A flash of which only the first signature byte was written. -/
def halfSigned : Mem UInt8 := Function.update (fun _ => 0xFF) NVM_CONFIG_POS 0xF0

/-- It is accepted. -/
theorem halfSigned_accepted :
    ¬ (flashNvm.outcome (fun _ => 0) halfSigned).Judged .zero (readConfig flashNvm (fun _ => 0) .zero halfSigned).1
        (readConfig flashNvm (fun _ => 0) .zero halfSigned).2.1 := by
  intro h
  have hvalid := h.accepts.mp (by decide)
  exact absurd hvalid.2.2.2 (by decide)

end OflMetrics
