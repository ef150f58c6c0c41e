import ConnPool.Act
import ConnPool.Config
import ConnPool.Duration
import ConnPool.Event
import ConnPool.Event.Bus
import ConnPool.Factory
import ConnPool.Failure
import ConnPool.Gauges
import ConnPool.Handle
import ConnPool.Handoff
import ConnPool.Handoff.Bag
import ConnPool.Handoff.Basic
import ConnPool.Handoff.Fifo
import ConnPool.Handoff.Rendezvous
import ConnPool.Handoff.Strategy
import ConnPool.Journal
import ConnPool.Json.Basic
import ConnPool.Json.Parse
import ConnPool.Json.Print
import ConnPool.Json.Sorted
import ConnPool.Json.Stored
import ConnPool.Json.Token
import ConnPool.Pool.Acquire
import ConnPool.Pool.Basic
import ConnPool.Pool.Destroy
import ConnPool.Pool.Lifetime
import ConnPool.Pool.Publish
import ConnPool.Pool.Return
import ConnPool.Pool.Sizing
import ConnPool.Pool.Sweep
import ConnPool.Recents
import ConnPool.Scenario.Enlistments
import ConnPool.Scenario.Events
import ConnPool.Scenario.Factories
import ConnPool.Scenario.Handoffs
import ConnPool.Scenario.Pools
import ConnPool.Scenario.Script
import ConnPool.Scenario.Session
import ConnPool.Scenario.Stress
import ConnPool.State
import ConnPool.Stats
import ConnPool.Text.Blank
import ConnPool.Text.Hidden
import ConnPool.Text.Quoted
import ConnPool.Thread
import ConnPool.UnitOfWork
import ConnPool.Proofs.Keyed
import ConnPool.Proofs.Ledger
import ConnPool.Proofs.Handoff
import ConnPool.Proofs.Sound
import ConnPool.Proofs.Effect
import ConnPool.Proofs.Lineup
import ConnPool.Proofs.PoolLedger
import ConnPool.Proofs.Step
import ConnPool.Proofs.Claim
import ConnPool.Proofs.NewHandle
import ConnPool.Proofs.Course
import ConnPool.Proofs.Returns
import ConnPool.Proofs.Sweeps
import ConnPool.Proofs.Acquires
import ConnPool.Proofs.Creations
import ConnPool.Proofs.Closing
import ConnPool.Proofs.PeakUsage
import ConnPool.Proofs.Operation
import ConnPool.Proofs.History
import ConnPool.Proofs.Conservation
import ConnPool.Proofs.Capacity
import ConnPool.Proofs.Reach
import ConnPool.Proofs.NoGrowth
import ConnPool.Proofs.Shutdown
import ConnPool.Proofs.HandoffRequests
import ConnPool.Proofs.ItemAccounting
import ConnPool.Proofs.StrategyAgreement
import ConnPool.Proofs.OtherWaiters
import ConnPool.Proofs.WaiterProgress
import ConnPool.Proofs.Outline
import ConnPool.Proofs.OutlineActions
import ConnPool.Proofs.ReapRace
import ConnPool.Proofs.UnitsAndLeases
import ConnPool.Proofs.UnitOperations
import ConnPool.Proofs.Enlistment
import ConnPool.Proofs.DroppedPool
import ConnPool.Proofs.Entries
import ConnPool.Proofs.Layout
import ConnPool.Proofs.Spelling
import ConnPool.Proofs.Storage
import ConnPool.Proofs.Audience
import ConnPool.Proofs.AudienceHiding
import ConnPool.Proofs.Interference
import ConnPool.Proofs.HandleEvents
import ConnPool.Proofs.OperationEvents
import ConnPool.Proofs.HandoverEvents
import ConnPool.Proofs.Balance
import ConnPool.Proofs.EventGrammar
import ConnPool.Proofs.Stream
import ConnPool.Proofs.Floor
import ConnPool.Proofs.SweepReports
import ConnPool.Proofs.ReapSweep
import ConnPool.Proofs.Obtaining
import ConnPool.Proofs.ValidationSweep
import ConnPool.Proofs.Typing
import ConnPool.Proofs.Reading
import ConnPool.Proofs.TakersServed
import ConnPool.Proofs.UnnoticedChanges
import ConnPool.Proofs.GivingBack
import ConnPool.Proofs.CreationWarnings
import ConnPool.Proofs.Tickets
import ConnPool.Proofs.FailedCreations
import ConnPool.Proofs.Refusal
import ConnPool.Proofs.GaugeSteps
import ConnPool.Proofs.BagOrder
import ConnPool.Proofs.RendezvousSteps
import ConnPool.Proofs.CheckoutSteps
import ConnPool.Proofs.CheckoutHolder
import ConnPool.Proofs.RendezvousSleepers
import ConnPool.Proofs.RendezvousAlone
import ConnPool.Proofs.UnitHistory
import ConnPool.Proofs.Refill
import ConnPool.Proofs.Prefill
import ConnPool.Proofs.HeldRuns
import ConnPool.Proofs.SeparateOwners
import ConnPool.Proofs.HomeHandles
import ConnPool.Proofs.HomeOperations
import ConnPool.Proofs.Overlap
import ConnPool.Proofs.Affinity
import ConnPool.Proofs.LeakSweep
import ConnPool.Proofs.PoolBuilding
import ConnPool.Proofs.TimeoutSetting
import ConnPool.Proofs.SubscriberHistory
import ConnPool.Proofs.Delivery
import ConnPool.Proofs.Lifecycle
import ConnPool.Proofs.Pruning
import ConnPool.Proofs.Marks
import ConnPool.Proofs.OwnerNumbers
import ConnPool.Proofs.SharedThreads
