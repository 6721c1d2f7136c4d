import PenPlotter.BusOrder
import PenPlotter.Uart
import PenPlotter.Serial
import PenPlotter.UartWrite
import PenPlotter.UartTx
import PenPlotter.UartSend
import PenPlotter.RxFrame
import PenPlotter.UartReceive
import PenPlotter.UartLoopback
import PenPlotter.UartBaud
import PenPlotter.UartStall
import PenPlotter.UartReset
import PenPlotter.Firmware
import PenPlotter.Commands
import PenPlotter.CommandOrder
import PenPlotter.ObiReg
import PenPlotter.Pid
import PenPlotter.System
import PenPlotter.Stable
import PenPlotter.StablePacket
import PenPlotter.PidEdge
import PenPlotter.Rearm
import PenPlotter.ObiRegRef
import PenPlotter.Quad
import PenPlotter.QuadRead
import PenPlotter.QuadPhase
import PenPlotter.QuadPowerUp
import PenPlotter.QuadInjector
import PenPlotter.BusStable
import PenPlotter.PidMotor
import PenPlotter.PidStatus
import PenPlotter.UartRxRing
import PenPlotter.UartStop
import PenPlotter.Devices
import PenPlotter.UartPort
import PenPlotter.PpSystem
import PenPlotter.BusLive
import PenPlotter.PpOrder
import PenPlotter.SysTimer
import PenPlotter.TimerCmp
import PenPlotter.Pwm
import PenPlotter.PidStability
import PenPlotter.BusWindow
import PenPlotter.PacketRun
import PenPlotter.StreamSystem
import PenPlotter.StreamTick
import PenPlotter.SimDecoder
import PenPlotter.SimInjector
import PenPlotter.SimUart
import PenPlotter.AddrWindow
import PenPlotter.PwmDuty
import PenPlotter.SimMmio
import PenPlotter.HostSender
import PenPlotter.Servo
import PenPlotter.HostSettings
import PenPlotter.SimPwm
import PenPlotter.RamPrims
import PenPlotter.RamAgree
import PenPlotter.HexDigits
import PenPlotter.VmemParse
import PenPlotter.VmemToMif
import PenPlotter.Sequential
import PenPlotter.PpObject
import PenPlotter.RamMemory
import PenPlotter.ConfigRegs
import PenPlotter.Pairing
import PenPlotter.SimTrace
import PenPlotter.ObiMonitor
import PenPlotter.SimDrv8833
import PenPlotter.PidMotors
import PenPlotter.Rv32
import PenPlotter.Preempt
import PenPlotter.Startup
import PenPlotter.CText
import PenPlotter.SenderText
import PenPlotter.ShapeDraw
import PenPlotter.Console
import PenPlotter.Settling
import PenPlotter.SimSystem
import PenPlotter.SimRegulate
import PenPlotter.TimerTicks
import PenPlotter.SimSerial
