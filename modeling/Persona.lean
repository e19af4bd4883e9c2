import Persona.Lib.Run
import Persona.Lib.PyText
import Persona.Lib.Decimal
import Persona.Lib.Binary64
import Persona.Lib.Lines
import Persona.Lib.Markdown
import Persona.Lib.Signs
import Persona.Lib.Markup
import Persona.Lib.Outline
import Persona.Lib.Regex
import Persona.Lib.Bytes
import Persona.Lib.TextFile
import Persona.Lib.Pattern
import Persona.Lib.Table
import Persona.Lib.Assoc
import Persona.Lib.Path
import Persona.Lib.Decoder
import Persona.Lib.Precedes
import Persona.Lib.Scan
import Persona.Lib.Snapshot
import Persona.Lib.UnionFind
import Persona.Lib.Best
import Persona.Lib.Firsts
import Persona.Lib.Codec
import Persona.Lib.CharRef
import Persona.Json
import Persona.JsonText
import Persona.JsonLex
import Persona.JsonLayout
import Persona.TomlText
import Persona.TaskBoard.Store
import Persona.TaskBoard.Interleave
import Persona.TaskBoard.Legacy
import Persona.Taskman.Edits
import Persona.Taskman.Splicing
import Persona.Taskman.Previewing
import Persona.Taskman.Job
import Persona.Taskman.Reporting
import Persona.Bridge.Hermes
import Persona.Bridge.Faults
import Persona.Bridge.Starvation
import Persona.Bridge.Card
import Persona.Bridge.Convergence
import Persona.Bridge.Creation
import Persona.Bridge.Mirroring
import Persona.Bridge.Reading
import Persona.Daemon.Child
import Persona.Daemon.Policy
import Persona.Daemon.Stop
import Persona.Memory.Conversations
import Persona.Memory.SleepCycle
import Persona.Memory.Consolidation
import Persona.Memory.Retirement
import Persona.Memory.IdleLoop
import Persona.Memory.Hygiene
import Persona.Memory.Components
import Persona.Memory.Duplicates
import Persona.Rag.Store
import Persona.Rag.Memory
import Persona.Rag.Isolation
import Persona.Rag.Backends
import Persona.Rag.Forgetting
import Persona.Rag.SelfKnowledge
import Persona.Rag.Chunking
import Persona.Rag.Migration
import Persona.Intake.Record
import Persona.Intake.Supersede
import Persona.Intake.Chatter
import Persona.Intake.Blanks
import Persona.Intake.Schema
import Persona.Intake.Facts
import Persona.Intake.Conflict
import Persona.Api.ThreadKey
import Persona.Api.Reasoning
import Persona.Api.Sanitizer
import Persona.Api.SanitizedReply
import Persona.Api.Windowing
import Persona.Api.WindowExtent
import Persona.Api.WindowBound
import Persona.Api.Transcript
import Persona.Api.Seeding
import Persona.Api.Jobs
import Persona.Api.Deletion
import Persona.Api.Ledger
import Persona.Api.Prompt
import Persona.Api.PromptBudget
import Persona.Api.Streaming
import Persona.Api.EventBus
import Persona.Api.AvatarState
import Persona.Api.RequestPaths
import Persona.SortingLine.Promotion
import Persona.SortingLine.Pipeline
import Persona.SortingLine.Inbox
import Persona.SortingLine.Ingestion
import Persona.SortingLine.Decoding
import Persona.SortingLine.HtmlText
import Persona.Provision.Gguf
import Persona.Provision.GgufContent
import Persona.Provision.Wire
import Persona.Provision.Rewiring
import Persona.Provision.LineByLine
import Persona.Provision.Config
import Persona.Provision.Serve
import Persona.Provision.Matcher
import Persona.Provision.Context
import Persona.Provision.Fetch
import Persona.Provision.FirstRun
import Persona.Panel.Action
import Persona.Doctor.SafeConfig
import Persona.Doctor.Endpoint
import Persona.Manage.Stopping
import Persona.Manage.Lifecycle
import Persona.Manage.Host
import Persona.Client.Desktop
import Persona.Client.ShipAi
import Persona.Client.Thread
import Persona.Client.Avatar
import Persona.Client.Voice
import Persona.WebUi.InlineUrls
