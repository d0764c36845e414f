import RestScaffold.Main
import RestScaffold.Proofs.Accessors
import RestScaffold.Proofs.ImportClosure
import RestScaffold.Proofs.Flattening
import RestScaffold.Proofs.Views
import RestScaffold.Proofs.OutputSet
import RestScaffold.Proofs.ClassNames
import RestScaffold.Proofs.FieldBindings
import RestScaffold.Proofs.PathMapping
import RestScaffold.Proofs.PathVariables
import RestScaffold.Proofs.EndpointChecks
import RestScaffold.Proofs.MappingAnnotations
import RestScaffold.Proofs.Parameters
import RestScaffold.Proofs.Imports
import RestScaffold.Proofs.ImportClashes
import RestScaffold.Proofs.Dangling
import RestScaffold.Proofs.ClassPackages
import RestScaffold.Proofs.ServicePair
import RestScaffold.Proofs.FileOrder
import RestScaffold.Proofs.SeparateRuns
import RestScaffold.Proofs.Outlines
import RestScaffold.Proofs.Responses
import RestScaffold.Proofs.RoundTrip
import RestScaffold.Proofs.Unannotated
import RestScaffold.Proofs.Declarations
import RestScaffold.Proofs.Diagnostics
import RestScaffold.Proofs.BeanMembers
import RestScaffold.Proofs.ChoiceMembers
import RestScaffold.Proofs.MapFields
import RestScaffold.Proofs.Substitution
import RestScaffold.Proofs.BeanLayout
import RestScaffold.Proofs.EnumConstants
import RestScaffold.Proofs.BehaviorLayouts
import RestScaffold.Proofs.Notices
import RestScaffold.Proofs.ScriptBlocks
import RestScaffold.Proofs.NameLetters
