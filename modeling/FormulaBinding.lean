import FormulaBinding.Configuration.Toml
import FormulaBinding.Proofs.Body.Meaning
import FormulaBinding.Proofs.Cache.Transparency
import FormulaBinding.Proofs.Generation.Conservation
import FormulaBinding.Value
import FormulaBinding.Proofs.Cache.LastRun
import FormulaBinding.Proofs.Generation.Independence
import FormulaBinding.Proofs.Generation.Delivery
import FormulaBinding.Proofs.Declaration.Resolution
import FormulaBinding.Proofs.Template.Schemes
import FormulaBinding.Proofs.Declaration.Names
import FormulaBinding.Proofs.Generation.Emittable
import FormulaBinding.Proofs.Unit.Suffix
import FormulaBinding.Proofs.Declaration.Prelude
import FormulaBinding.Proofs.Generation.Repetition
import FormulaBinding.Proofs.Unit.Failure
import FormulaBinding.Proofs.Template.Matches
import FormulaBinding.Proofs.Unit.Templates
import FormulaBinding.Proofs.Generation.Confinement
import FormulaBinding.Proofs.Unit.TraitPath
import FormulaBinding.Proofs.Unit.Refusal
import FormulaBinding.Proofs.Expansion.Stripping
import FormulaBinding.Proofs.Expansion.Placement
import FormulaBinding.Proofs.Text.Plain
import FormulaBinding.Proofs.Member.Mismatch
import FormulaBinding.Proofs.Generation.Policy
import FormulaBinding.Proofs.Declaration.Spelling
import FormulaBinding.Proofs.Declaration.MarkerText
import FormulaBinding.Proofs.Body.Mutability
import FormulaBinding.Proofs.Generation.Writing
import FormulaBinding.Proofs.Expansion.ArgumentList
import FormulaBinding.Proofs.Body.Freshness
