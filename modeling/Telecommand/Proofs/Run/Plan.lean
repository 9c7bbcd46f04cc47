import Telecommand.Proofs.Basic
import Telecommand.Run.Plan

/-! # Plans and their layers

    What a plan takes from the command line and what from the settings
    file. -/

namespace Telecommand.Run.Plan

open Settings

variable {options : Options} {config : Config} {plan : Plan}

/-- How the command line and the settings file come together in a plan. -/
structure Layered (options : Options) (config : Config) (plan : Plan) : Prop where
  input_eq : plan.input = options.input
  delayMode_eq : plan.delayMode = options.delayMode.getD config.delayMode
  layout_eq : plan.layout = options.layout.getD config.layout
  allowErrors_eq : plan.allowErrors = (options.allowErrors || config.allowErrors)
  /-- There is a delay file in the split layout, and only there. -/
  isSome_delayFile_iff : plan.delayFile.isSome = true ↔ plan.layout = .split

/-- What a plan is made of. -/
theorem resolve_cases (h : resolve options config = .ok plan) :
    ∃ output delayFile,
      namedOr options.output options.input config.outputExtension = .ok output
        ∧ (options.layout.getD config.layout = .combined ∧ delayFile = none
          ∨ ∃ delays, options.layout.getD config.layout = .split ∧ delayFile = some delays
              ∧ namedOr options.delayFile output config.delayExtension = .ok delays)
        ∧ plan = ⟨options.input, output, delayFile, options.delayMode.getD config.delayMode,
            options.layout.getD config.layout, options.allowErrors || config.allowErrors⟩ := by
  unfold resolve at h
  obtain ⟨output, houtput, h⟩ := bind_eq_ok_iff.mp h
  cases hlayout : options.layout.getD config.layout with
  | combined =>
      simp only [hlayout] at h
      cases h
      exact ⟨output, none, houtput, .inl ⟨rfl, rfl⟩, rfl⟩
  | split =>
      simp only [hlayout, map_eq_pure_bind] at h
      obtain ⟨delayFile, hfile, h⟩ := bind_eq_ok_iff.mp h
      obtain ⟨delays, hdelays, hsome⟩ := bind_eq_ok_iff.mp hfile
      cases hsome
      cases h
      exact ⟨output, some delays, houtput, .inr ⟨delays, rfl, rfl, hdelays⟩, rfl⟩

theorem layered_of_resolve (h : resolve options config = .ok plan) :
    Layered options config plan := by
  obtain ⟨output, delayFile, -, ⟨hlayout, rfl⟩ | ⟨delays, hlayout, rfl, -⟩, rfl⟩ :=
    resolve_cases h
  · exact ⟨rfl, rfl, rfl, rfl, by simp [hlayout]⟩
  · exact ⟨rfl, rfl, rfl, rfl, by simp [hlayout]⟩

/-- The output files of a plan are those that are named, or else derived. -/
theorem namedOr_of_resolve (h : resolve options config = .ok plan) :
    namedOr options.output options.input config.outputExtension = .ok plan.output
      ∧ ∀ delays ∈ plan.delayFile,
          namedOr options.delayFile plan.output config.delayExtension = .ok delays := by
  obtain ⟨output, delayFile, houtput, ⟨-, rfl⟩ | ⟨delays, -, rfl, hdelays⟩, rfl⟩ :=
    resolve_cases h
  · exact ⟨houtput, by simp⟩
  · refine ⟨houtput, ?_⟩
    rintro found ⟨⟩
    exact hdelays

end Telecommand.Run.Plan
