import OrbitalViewer.Protocol
import OrbitalViewer.ProtocolDecode
import OrbitalViewer.Burst
import OrbitalViewer.Bounds
import OrbitalViewer.Broadcast
import OrbitalViewer.BroadcastOlv1
import OrbitalViewer.BroadcastOlv2
import OrbitalViewer.Rejection
import OrbitalViewer.StaleSequence
import OrbitalViewer.Accounting
import OrbitalViewer.Tracks
import OrbitalViewer.TrailPoints
import OrbitalViewer.TrailRows
import OrbitalViewer.DisTranslation
import OrbitalViewer.Capacity
import OrbitalViewer.FrameBuilder
import OrbitalViewer.Olv2Builder
import OrbitalViewer.Olv2Delivery
import OrbitalViewer.CsvReader
import OrbitalViewer.Mission
import OrbitalViewer.RateWindow
import OrbitalViewer.DisStaleness
import OrbitalViewer.DropOrder
import OrbitalViewer.WsSession
import OrbitalViewer.Connection
import OrbitalViewer.TomlJs
import OrbitalViewer.ConfigPrecedence
import OrbitalViewer.ConfigRules
import OrbitalViewer.CsvContract
import OrbitalViewer.FoldCollisions
import OrbitalViewer.MissionFrames
import OrbitalViewer.SimIntegers
import OrbitalViewer.TimerPeriod
import OrbitalViewer.SettingsStore
import OrbitalViewer.ServerFedTrails
import OrbitalViewer.TrailSamples
import OrbitalViewer.SatCamera
import OrbitalViewer.Fisheye
import OrbitalViewer.Occlusion
import OrbitalViewer.DisBuilder
import OrbitalViewer.EntityIdText
import OrbitalViewer.Lib.Family
import OrbitalViewer.WsServer
import OrbitalViewer.WsFanOut
import OrbitalViewer.WsClients
import OrbitalViewer.Backend
import OrbitalViewer.Model
import OrbitalViewer.Viewer
import OrbitalViewer.SiteConfig
import OrbitalViewer.RendererScene
import OrbitalViewer.SceneBuffers
import OrbitalViewer.Endpoint
import OrbitalViewer.FrontendMain
import OrbitalViewer.Lib.IeeeRounding
import OrbitalViewer.SimMain
import OrbitalViewer.SimDelivery
import OrbitalViewer.DisTicks
import OrbitalViewer.DisDelivery
import OrbitalViewer.Generator
import OrbitalViewer.GeneratedFrames
import OrbitalViewer.SimTracks
import OrbitalViewer.OrbitCamera
import OrbitalViewer.Lib.NearMin
import OrbitalViewer.Picking
import OrbitalViewer.Overlay
import OrbitalViewer.UiShown
import OrbitalViewer.Clicks
