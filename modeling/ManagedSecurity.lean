import ManagedSecurity.Authenticity
import ManagedSecurity.ArchiveLayout
import ManagedSecurity.DamagedArchive
import ManagedSecurity.AsyncReading
import ManagedSecurity.AsyncWriting
import ManagedSecurity.FinishedArchive
import ManagedSecurity.FailingSink
import ManagedSecurity.AntiReplay
import ManagedSecurity.ArbitratorRegistrar
import ManagedSecurity.ShieldSession
import ManagedSecurity.JobLease
import ManagedSecurity.JobQueue
import ManagedSecurity.DecryptOutcomes
import ManagedSecurity.HeaderSanity
import ManagedSecurity.HeaderLanguage
import ManagedSecurity.HeaderExtent
import ManagedSecurity.HeaderBuilder
import ManagedSecurity.ReaderBuffer
import ManagedSecurity.ReadTermination
import ManagedSecurity.WriteTermination
import ManagedSecurity.Metadata
import ManagedSecurity.LiveStream
import ManagedSecurity.Segments
import ManagedSecurity.Payload
import ManagedSecurity.FailedWrite
import ManagedSecurity.HostilePayload
import ManagedSecurity.CameraStore
import ManagedSecurity.ConfigurationProvider
import ManagedSecurity.FailedReload
import ManagedSecurity.Vault
import ManagedSecurity.EntryPoints
import ManagedSecurity.InPlace
import ManagedSecurity.Guardian
import ManagedSecurity.VaultIndexer
import ManagedSecurity.Splicing
import ManagedSecurity.StreamFeed
import ManagedSecurity.Hub
import ManagedSecurity.LiveRecording
import ManagedSecurity.Agents
import ManagedSecurity.Governor
import ManagedSecurity.SnapshotRoute
import ManagedSecurity.Telemetry
import ManagedSecurity.Discovery
import ManagedSecurity.Recorder
