import Casa.KeyedTable
import Casa.FaultState
import Casa.StepRuns
import Casa.Coroutine
import Casa.PythonValue
import Casa.ProvenanceCodec
import Casa.JobRecord
import Casa.JobEntry
import Casa.JobRegistry
import Casa.JobSnapshot
import Casa.JobEffects
import Casa.JobDurability
import Casa.JobLifecycle
import Casa.JobCancellation
import Casa.JobCapacity
import Casa.JobNumbers
import Casa.JobContinuation
import Casa.VoiceRoutes
import Casa.VoiceDelivery
import Casa.VoiceQueue
import Casa.VoiceFrames
import Casa.VerdictBroker
import Casa.VerdictOutcomes
import Casa.VerdictSetup
import Casa.AuthzGrants
import Casa.AuthzApprovals
import Casa.BundleJournal
import Casa.BundleCrash
import Casa.OperationTree
import Casa.CallbackAttempts
import Casa.CallbackSpool
import Casa.CallbackPasses
import Casa.CallbackHost
import Casa.CallbackLicence
import Casa.CallbackSpecs
import Casa.CallbackPassSpecs
import Casa.CallbackLawful
import Casa.CallbackPublish
import Casa.CallbackFailure
import Casa.CallbackLedger
import Casa.CallbackNudges
import Casa.CallbackAck
import Casa.EventSpool
import Casa.EventPasses
import Casa.EventLicence
import Casa.EventSpecs
import Casa.EventFold
import Casa.EventRevocation
import Casa.EventGenerations
import Casa.SequencerNarration
import Casa.EngagementDurability
import Casa.InstanceDir
import Casa.RollbackGeneration
import Casa.RetainedBinding
import Casa.ClientPool
import Casa.ClientTurns
import Casa.ClientFreshness
import Casa.ClientOwnership
import Casa.ClientShutdown
import Casa.SessionRegistry
import Casa.SessionClaims
import Casa.WebhookSecrets
import Casa.WebhookActivation
import Casa.OutboxSweep
import Casa.OutboxReachable
import Casa.LineStream
import Casa.LogSegments
import Casa.LogReader
import Casa.SecretRotation
import Casa.RotationSafety
import Casa.OperationHistory
import Casa.CallbackMarkers
import Casa.CallbackPublication
import Casa.CallbackRouting
import Casa.ServiceSources
import Casa.SourceRepair
import Casa.LiveDatabase
import Casa.BusRequests
import Casa.JsonText
import Casa.InboundSpool
import Casa.CoroutinePool
import Casa.SpoolSafety
import Casa.SpoolDelivery
import Casa.RoundedClock
import Casa.EventSchedule
import Casa.NudgeRules
import Casa.AttemptSchema
import Casa.ChallengeCoordinator
import Casa.AsyncLock
import Casa.ReloadLock
import Casa.LinkTree
import Casa.ToolInstall
import Casa.ToolSafety
import Casa.SpecialistFiles
import Casa.SpecialistHeal
import Casa.SpecialistReconcile
import Casa.SpecialistOverlay
import Casa.IdentityGrammar
import Casa.PythonDict
import Casa.ConfigMerge
import Casa.YamlDocument
import Casa.ConfigCompose
import Casa.ObjectWalk
import Casa.TriggerFile
import Casa.CanonicalJson
import Casa.SummaryTemplate
import Casa.Base64Url
import Casa.FlatJson
import Casa.ProvenanceTag
import Casa.RetainItems
import Casa.LaminarIntervals
import Casa.MarkdownBlocks
import Casa.MarkdownInline
import Casa.MarkdownMessage
import Casa.MessagePages
import Casa.PlanExtraction
import Casa.SeparatedText
import Casa.CronWeekdays
import Casa.PluginRegistry
import Casa.OwnedSwap
import Casa.Netstring
import Casa.ArtifactChecksum
import Casa.ConfinedLinks
import Casa.TarExtraction
import Casa.TopicSweep
import Casa.EngagementRollback
import Casa.ProsodicSplitter
import Casa.VoiceBindings
import Casa.SessionSweeps
import Casa.RateLimiter
import Casa.LogRedact
import Casa.PluginTriggers
import Casa.TriggerReconcile
import Casa.RecallRenderer
import Casa.PathScope
import Casa.Utf8
import Casa.CallbackQuery
import Casa.MarkdownSections
import Casa.PluginEnvConf
