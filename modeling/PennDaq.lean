import PennDaq.XL3Model
import PennDaq.CommandAcks
import PennDaq.MegaBundles
import PennDaq.MultiLoads
import PennDaq.ReadOut
import PennDaq.CaldResults
import PennDaq.MTCModel
import PennDaq.LockRuns
import PennDaq.Globals
import PennDaq.DrainLoop
import PennDaq.Connection
import PennDaq.MTCCuts
import PennDaq.CommandLocks
import PennDaq.CommandScope
import PennDaq.Controllers
import PennDaq.ControllerInput
import PennDaq.MTCBounds
import PennDaq.MTCWaveforms
import PennDaq.FECSettings
import PennDaq.FECDocument
import PennDaq.FECReadBack
import PennDaq.ProblemBits
import PennDaq.FECGeneration
import PennDaq.SlotIsolation
import PennDaq.BoardMoves
import PennDaq.MTCThresholds
import PennDaq.MTCPedestals
import PennDaq.MultiOptions
import PennDaq.PedestalRms
import PennDaq.NoiseReads
import PennDaq.TriggerCounts
import PennDaq.GTValidMeasure
import PennDaq.TTotTimes
import PennDaq.TTotPosts
import PennDaq.GTValidTuning
import PennDaq.CBalGuesses
import PennDaq.PedRunRecords
import PennDaq.XilinxData
import PennDaq.TutConfiguration
import PennDaq.FinalTest
import PennDaq.TriggerPedestals
import PennDaq.TriggerThresholds
import PennDaq.MbHistories
import PennDaq.CGTTest
import PennDaq.JsonDocuments
import PennDaq.JsonLookups
