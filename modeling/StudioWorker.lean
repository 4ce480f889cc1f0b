import StudioWorker.Host.Group
import StudioWorker.Host.Deletion
import StudioWorker.Host.Callers
import StudioWorker.Host.Restart
import StudioWorker.Host.Atomic
import StudioWorker.Host.Transient
import StudioWorker.Config.LostUpdate
import StudioWorker.Config.Reload
import StudioWorker.Config.Registering
import StudioWorker.Mirror
import StudioWorker.DaemonLink
import StudioWorker.SelfInstall
import StudioWorker.Engine.StopCut
import StudioWorker.Session.ReconnectCap
import StudioWorker.Session.Answers
import StudioWorker.Session.Update
import StudioWorker.Logs.Ledger
import StudioWorker.Logs.Ring
import StudioWorker.Logs.JobLog
import StudioWorker.Engine.ThinkPieces
import StudioWorker.ReleaseTags
import StudioWorker.LocalApi.Guard
import StudioWorker.SttStream.Session
import StudioWorker.SttStream.Tokens
import StudioWorker.SttStream.Transcript
import StudioWorker.MultipartSegments
import StudioWorker.CatalogHistory
import StudioWorker.LocalApi.Routes
import StudioWorker.Engine.Download
import StudioWorker.Engine.CachePath
import StudioWorker.Engine.Restarts
import StudioWorker.Engine.Yolo
import StudioWorker.VoiceSamples.Store
import StudioWorker.VoiceSamples.Names
import StudioWorker.VoiceSamples.Wav
import StudioWorker.VoiceSamples.Upload
import StudioWorker.WakeWord.Training
import StudioWorker.WakeWord.Prepare
import StudioWorker.WakeWord.FalseAccepts
import StudioWorker.WakeWord.Cutoff
import StudioWorker.WakeWord.Weights
import StudioWorker.LlamaProcess.Await
import StudioWorker.LlamaProcess.Requests
import StudioWorker.Torch.Stream
import StudioWorker.Torch.Provision
import StudioWorker.Engine.SdProvision
import StudioWorker.Engine.OnnxProvision
import StudioWorker.Engine.Vision
import StudioWorker.Convert.GateSet
import StudioWorker.Convert.Resample
import StudioWorker.Markers
import StudioWorker.WakeWord.Samples
import StudioWorker.WakeWord.SpokenTexts
import StudioWorker.WakeWord.Overrides
import StudioWorker.Convert.References
import StudioWorker.Convert.WrapIo
import StudioWorker.Engine.CropBox
import StudioWorker.Engine.LoraArgs
import StudioWorker.Engine.ScratchFiles
import StudioWorker.ExeWatch
import StudioWorker.TrayWatchdog
import StudioWorker.Engine.Generation
import StudioWorker.LocalApi.MintRoutes
import StudioWorker.Autostart
import StudioWorker.Engine.Whisper
import StudioWorker.StudioUrl
import StudioWorker.Jobs.Notify
import StudioWorker.Logs.Trim
import StudioWorker.SttStream.Server
import StudioWorker.Config.Serving
import StudioWorker.Lib.Report
import StudioWorker.Torch.Runner
import StudioWorker.WakeWord.Stage
import StudioWorker.SttStream.Tls
import StudioWorker.Lib.Places
import StudioWorker.LocalVision
import StudioWorker.Lib.Container
import StudioWorker.Glb
import StudioWorker.Lib.Feed
import StudioWorker.Engine.Told
import StudioWorker.LocalApi.ChatStream
import StudioWorker.Lib.Trapezoid
import StudioWorker.WakeWord.Validation
