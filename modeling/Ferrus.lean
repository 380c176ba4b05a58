import Ferrus.Soundness.BatchOwners
import Ferrus.Soundness.BatchStreams
import Ferrus.Soundness.CanonicalFreshness
import Ferrus.Soundness.ConsultationAnswers
import Ferrus.Soundness.ConversationReplay
import Ferrus.Soundness.ExecutorExclusion
import Ferrus.Soundness.FactConflicts
import Ferrus.Soundness.FrozenViews
import Ferrus.Soundness.GraphCollection
import Ferrus.Soundness.HunkReplacement
import Ferrus.Soundness.IndexRestoration
import Ferrus.Soundness.JobRecords
import Ferrus.Soundness.LeaseDeadlines
import Ferrus.Soundness.LeaseRecovery
import Ferrus.Soundness.LinkQueries
import Ferrus.Soundness.MemoryRefinement
import Ferrus.Soundness.MilestoneUniqueness
import Ferrus.Soundness.OutputPages
import Ferrus.Soundness.PatchRewriting
import Ferrus.Soundness.PauseColumns
import Ferrus.Soundness.PayloadSizing
import Ferrus.Soundness.PreviewText
import Ferrus.Soundness.ProjectErasure
import Ferrus.Soundness.ReceiptReplay
import Ferrus.Soundness.RecoveryPreview
import Ferrus.Soundness.RefreshLeases
import Ferrus.Soundness.ReviewBinding
import Ferrus.Soundness.SchedulingBounds
import Ferrus.Soundness.SelectedSpec
import Ferrus.Soundness.SourceSelection
import Ferrus.Soundness.SourceStamps
import Ferrus.Soundness.SpecParsers
import Ferrus.Soundness.StorageQuotas
import Ferrus.Soundness.TaskOrder
import Ferrus.Soundness.ToolRaces
import Ferrus.Soundness.WorkCounters
