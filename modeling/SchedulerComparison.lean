import SchedulerComparison.Lib.Transition
import SchedulerComparison.Lib.Process
import SchedulerComparison.Lib.ProcessSteps
import SchedulerComparison.Launcher.RunTrial
import SchedulerComparison.Launcher.Children
import SchedulerComparison.Launcher.Isolation
import SchedulerComparison.Launcher.Measurement
import SchedulerComparison.Toy.RunTrial
import SchedulerComparison.Launcher.Signals
import SchedulerComparison.Toy.Signals
import SchedulerComparison.Hackbench.Packets
import SchedulerComparison.Hackbench.Conservation
import SchedulerComparison.Hackbench.Main
import SchedulerComparison.Hackbench.Stop
import SchedulerComparison.Hackbench.Barrier
import SchedulerComparison.Apache.HandlePing
import SchedulerComparison.Apache.Alignment
import SchedulerComparison.Lib.Text
import SchedulerComparison.TimeTracker.Plotter
import SchedulerComparison.TimeTracker.Snapshots
import SchedulerComparison.TimeTracker.Decoding
import SchedulerComparison.Apache.Mass
import SchedulerComparison.Launcher.ParseArgs
import SchedulerComparison.Launcher.GroupRange
import SchedulerComparison.Launcher.Spelling
import SchedulerComparison.Launcher.Split
import SchedulerComparison.Lib.CountedLoop
import SchedulerComparison.Lib.Plan
import SchedulerComparison.Launcher.Sweep
import SchedulerComparison.Toy.Sweep
import SchedulerComparison.Toy.Containment
import SchedulerComparison.Lib.FixedNotation
import SchedulerComparison.Launcher.Results
import SchedulerComparison.Hackbench.Cleanup
import SchedulerComparison.TimeTracker.CutFiles
import SchedulerComparison.TimeTracker.Series
import SchedulerComparison.TimeTracker.Sampling
import SchedulerComparison.Apache.HttpClient
import SchedulerComparison.Apache.Requests
import SchedulerComparison.Apache.Window
import SchedulerComparison.Apache.Completion
import SchedulerComparison.Apache.RecvUntilEof
import SchedulerComparison.Hackbench.ProcessOptions
import SchedulerComparison.Hackbench.WorkerTable
import SchedulerComparison.Launcher.Interrupted
import SchedulerComparison.Hackbench.Faultless
import SchedulerComparison.Hackbench.System
import SchedulerComparison.Hackbench.Completion
import SchedulerComparison.Apache.RequestLog
import SchedulerComparison.Apache.Pairs
import SchedulerComparison.Lib.Work
import SchedulerComparison.Launcher.Steady
import SchedulerComparison.Launcher.Completion
import SchedulerComparison.Launcher.CommandLine
import SchedulerComparison.Hackbench.Stopping
import SchedulerComparison.Toy.CommandLine
import SchedulerComparison.Postgresql.QueryTest
import SchedulerComparison.Lib.OptionLoop
import SchedulerComparison.CommandLines
import SchedulerComparison.Lib.ProcessTree
import SchedulerComparison.Launcher.ProcessTree
import SchedulerComparison.Toy.ProcessTree
