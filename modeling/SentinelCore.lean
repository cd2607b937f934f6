import SentinelCore.ReceiptFailures
import SentinelCore.Verifier
import SentinelCore.VerifierRule
import SentinelCore.RegistryLoader
import SentinelCore.VerifierFailures
import SentinelCore.Py.Url
import SentinelCore.ExternalSigning
import SentinelCore.SigningContract
import SentinelCore.SigningRuns
import SentinelCore.SignatureTexts
import SentinelCore.Go.Json
import SentinelCore.Evidence
import SentinelCore.EvidenceChain
import SentinelCore.EvidenceContent
import SentinelCore.Voice
import SentinelCore.VoiceCollector
import SentinelCore.Py.JsonPairs
import SentinelCore.Py.Space
import SentinelCore.VoiceClient
import SentinelCore.VoiceCalls
import SentinelCore.VoiceSessions
import SentinelCore.VoiceRuns
import SentinelCore.VoiceTurns
import SentinelCore.VoiceLifecycles
import SentinelCore.Lib.Layout
import SentinelCore.Workflow
import SentinelCore.WorkflowSteps
import SentinelCore.WorkflowRule
import SentinelCore.WorkflowCheckout
import SentinelCore.AzureSigning
import SentinelCore.AzureContract
import SentinelCore.AzureKeyIds
import SentinelCore.Lib.TallyOrder
import SentinelCore.ReceiptOrder
import SentinelCore.DigestForms
import SentinelCore.Py.Regex
import SentinelCore.VoiceInstructions
import SentinelCore.Py.JsonFlat
import SentinelCore.Lib.Interleave
import SentinelCore.SigningFailures
import SentinelCore.VoiceArtifacts
import SentinelCore.VoiceFaults
import SentinelCore.VoiceRaces
import SentinelCore.WorkflowKeys
import SentinelCore.PolicyHistory
import SentinelCore.RegistryFiles
import SentinelCore.VoiceWav
import SentinelCore.VoiceErrors
import SentinelCore.Lib.Padding
import SentinelCore.WorkflowPadding
import SentinelCore.Py.IsoForms
import SentinelCore.ReceiptTimes
import SentinelCore.WorkflowComments
import SentinelCore.Py.Matches
import SentinelCore.Py.Words
import SentinelCore.Py.Phrases
import SentinelCore.VoiceOverrides
import SentinelCore.WorkflowLayouts
import SentinelCore.WorkflowRanges
import SentinelCore.Lib.FileTree
import SentinelCore.Py.Path
import SentinelCore.ReleaseEvidence
import SentinelCore.VoiceNames
import SentinelCore.Py.JsonFormat
import SentinelCore.Py.JsonTokens
import SentinelCore.Py.JsonReads
import SentinelCore.Py.JsonSame
import SentinelCore.RecordForms
import SentinelCore.ReceiptForms
import SentinelCore.VoiceMoves
import SentinelCore.VoiceConnections
import SentinelCore.VoiceUrls
import SentinelCore.VoiceOutbound
import SentinelCore.VoiceManifest
import SentinelCore.Py.FsCodec
import SentinelCore.ReleaseManifest
