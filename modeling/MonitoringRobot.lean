import MonitoringRobot.Base.Smoothing
import MonitoringRobot.Relay.Doubles
import MonitoringRobot.Relay.Faults
import MonitoringRobot.Relay.Wheels
import MonitoringRobot.Follower.Steering
import MonitoringRobot.Follower.Selection
import MonitoringRobot.Follower.Symmetry
import MonitoringRobot.Follower.Frames
import MonitoringRobot.System.Robot
import MonitoringRobot.System.Deadbands
import MonitoringRobot.System.Throttle
import MonitoringRobot.System.Zones
import MonitoringRobot.Rssi.Scan
import MonitoringRobot.Rssi.Iwlist
import MonitoringRobot.Rssi.Kalman
import MonitoringRobot.Rssi.Filtering
import MonitoringRobot.Rssi.Logger
import MonitoringRobot.Rssi.Sessions
import MonitoringRobot.Rssi.Features
import MonitoringRobot.Rssi.Settling
import MonitoringRobot.Base.Riccati
import MonitoringRobot.Lidar.Requests
import MonitoringRobot.Lidar.Answers
import MonitoringRobot.Lidar.Driver
import MonitoringRobot.Lidar.Transceiver
import MonitoringRobot.Lidar.Publish
import MonitoringRobot.Matcher.Outliers
